import Mathlib
import TrickleNet.Proofs.Debounce
import TrickleNet.Proofs.Decision
import TrickleNet.Proofs.Isolation
/-!
# No message gets lost uncounted

A node counts every message before it hands it to the outbox, and the outbox counts those that it
has no room for.  `Moment.Accounted` is the account of one event: at most one message is handed
over, it counts as issued once, and it is queued or counted as dropped.  `Moment.Valid.accounted`
says that every event of a run has such an account, and whom its message is addressed to.

An instance counts the advertisements it sends, and its counters are gone when it is left.  So the
account of a whole run adds what was counted by the instances that were left (`Moment.retired`).

What the transport takes out of the outbox between two events is described by `Drains`.  Whatever
its pattern, the messages that were taken and those that still wait are those that were queued, in
the order in which they were (`Drains.in_order`).
-/

namespace TrickleNet.Node

variable {ρ : Type} {p : Platform} {n m k : Node ρ} {x : Moment ρ} {i : InstanceId} {a : Address}
  {d : Dodag} {msg : Control} {msg? : Option Control} {e : Instant} {ms ms' : List (Moment ρ)}
  {taken taken' : List Control}

/-! ## The outbox as a queue -/

/-- The messages that the event appends to the outbox. -/
def Moment.queued (x : Moment ρ) : List Control :=
  x.after.outbox.toList.drop x.before.outbox.toList.length

/-- Between the events of a record, which begins at a node and ends at another one, the transport
takes messages out of the outbox, those that have waited longest. -/
inductive Drains : Node ρ → List (Moment ρ) → List Control → Node ρ → Prop
  | nil {n m : Node ρ} {taken : List Control} :
      n.outbox.toList = taken ++ m.outbox.toList → Drains n [] taken m
  | cons {n k : Node ρ} {x : Moment ρ} {ms : List (Moment ρ)} {taken taken' : List Control} :
      n.outbox.toList = taken ++ x.before.outbox.toList → Drains x.after ms taken' k →
        Drains n (x :: ms) (taken ++ taken') k

/-- Nothing is taken before an event. -/
theorem Drains.event (x : Moment ρ) (h : Drains x.after ms taken k) :
    Drains x.before (x :: ms) taken k := by
  have hnone : Drains x.before (x :: ms) ([] ++ taken) k := .cons rfl h
  exact hnone

/-- The transport takes messages before the record goes on. -/
theorem Drains.after (h : n.outbox.toList = taken ++ m.outbox.toList)
    (hrest : Drains m ms taken' k) : Drains n ms (taken ++ taken') k := by
  cases hrest with
  | nil hend =>
    refine .nil ?_
    rw [h, hend, List.append_assoc]
  | cons hbegin hrest =>
    rw [← List.append_assoc]
    refine .cons ?_ hrest
    rw [h, hbegin, List.append_assoc]

theorem Drains.append (h : Drains n ms taken m) (h' : Drains m ms' taken' k) :
    Drains n (ms ++ ms') (taken ++ taken') k := by
  induction h with
  | nil hend => exact h'.after hend
  | cons hbegin _ ih =>
    rw [List.append_assoc]
    exact .cons hbegin (ih h')

theorem sameCore_takeOutbox (n : Node ρ) : n.SameCore n.takeOutbox.2 :=
  ⟨rfl, rfl, rfl, rfl, rfl, rfl, rfl, rfl⟩

/-- The transport empties the outbox. -/
theorem drains_takeOutbox (n : Node ρ) : Drains n [] n.takeOutbox.1 n.takeOutbox.2 := by
  refine .nil ?_
  exact (List.append_nil n.outbox.toList).symm

/-- Messages leave the outbox in the order in which they were queued. -/
theorem Drains.in_order (h : Drains n ms taken k)
    (hms : ∀ x ∈ ms, x.after.outbox.toList = x.before.outbox.toList ++ x.queued) :
    taken ++ k.outbox.toList = n.outbox.toList ++ ms.flatMap Moment.queued := by
  induction h with
  | nil hend => rw [List.flatMap_nil, List.append_nil, hend]
  | @cons n k x ms taken taken' hbegin _ ih =>
    have hrest := ih fun y hy => hms y (List.mem_cons_of_mem x hy)
    rw [hms x List.mem_cons_self] at hrest
    rw [List.append_assoc, hrest, List.flatMap_cons, hbegin, List.append_assoc, List.append_assoc]

/-! ## Advertisements are counted by their instances -/

/-- The advertisements that an instance has counted since it was joined. -/
def advertisedBy (n : Node ρ) (i : InstanceId) : Nat :=
  ((n.dodags.find? i).map fun d => d.counts.sent).getD 0

/-- The advertisements counted by the instances that the node belongs to. -/
def advertised (n : Node ρ) : Nat := (n.dodags.values.map fun d => d.counts.sent).sum

/-- The advertisements counted by the instance that the event leaves, if it leaves one. -/
def Moment.retired (x : Moment ρ) : Nat :=
  match x.event with
  | .request (.leave i) _ => x.before.advertisedBy i
  | _ => 0

/-- The decision is taken to advertise an instance. -/
def Moment.announces (x : Moment ρ) (i : InstanceId) : Bool :=
  x.decides i && (x.before.timer? i).any fun t => t.state.heard < t.state.params.redundancy.toNat

/-- The event advertises the instance that it is addressed to. -/
def Moment.advertises (x : Moment ρ) : Bool := x.event.inst?.any x.announces

theorem advertisedBy_eq (n : Node ρ) (i : InstanceId) :
    n.advertisedBy i = ((n.timer? i).map fun t => t.state.counts.sent).getD 0 := by
  rw [advertisedBy, timer?, Option.map_map]
  rfl

/-- A change of one instance changes the sum by as much. -/
theorem advertised_of_ne (h : ∀ j ≠ i, m.dodags.find? j = n.dodags.find? j) :
    m.advertised + n.advertisedBy i = n.advertised + m.advertisedBy i :=
  Table.sum_values_of_ne (fun d : Dodag => d.counts.sent) h

section

variable [RandomSource ρ]

/-- What an instance has counted goes up with each advertisement, and is gone when it is left. -/
theorem Moment.Valid.advertisedBy (h : x.Valid p) (i : InstanceId) :
    x.after.advertisedBy i + (if x.leaves i then x.before.advertisedBy i else 0) =
      x.before.advertisedBy i + if x.announces i then 1 else 0 := by
  rw [advertisedBy_eq, advertisedBy_eq]
  cases ht : x.before.timer? i with
  | none =>
    have hnot : x.announces i = false := by simp [announces, ht]
    have hafter : ((x.after.timer? i).map fun t => t.state.counts.sent).getD 0 = 0 := by
      cases ht' : x.after.timer? i with
      | none => rfl
      | some t' =>
        obtain ⟨params, now, split, source, source', -, -, hbegin, -⟩ := h.joined ht ht'
        obtain ⟨middle, next, -, -, -, -, hstate⟩ := Dodag.begin_eq_ok hbegin
        rw [Option.map_some, hstate]
        rfl
    rw [hnot, hafter]
    simp
  | some t =>
    have hquiet (hdecides : x.decides i = false) : x.announces i = false := by
      rw [announces, hdecides, Bool.false_and]
    have hcourse := h.course ht
    cases hcourse with
    | idle _ _ hleaves _ hdecides hafter =>
      rw [hleaves, hquiet hdecides, hafter]
      cases x.hears i <;> rfl
    | postponed hsignal _ _ _ hdecides hafter =>
      rw [leaves, hsignal, hquiet hdecides, hafter]
      rfl
    | decided hsignal _ _ _ _ hdecides hafter =>
      rw [leaves, hsignal, announces, hdecides, ht, hafter]
      by_cases hheard : t.state.heard < t.state.params.redundancy.toNat <;>
        simp [Dodag.decided, hheard]
    | ended hsignal _ _ _ _ hdecides hbegin hafter =>
      obtain ⟨middle, next, -, -, -, -, rfl⟩ := Dodag.begin_eq_ok hbegin
      rw [leaves, hsignal, hquiet hdecides, hafter, Dodag.grow_eq]
      rfl
    | reset hsignal _ _ hdecides hbegin hafter =>
      obtain ⟨middle, next, -, -, -, -, rfl⟩ := Dodag.begin_eq_ok hbegin
      rw [leaves, hsignal, hquiet hdecides, hafter]
      rfl
    | left hsignal _ hdecides hafter =>
      rw [leaves, hsignal, hquiet hdecides, hafter]
      simp

omit [RandomSource ρ] in
/-- Only where it is left does an instance retire. -/
theorem retired_eq (hi : x.event.inst? = some i) :
    x.retired = if x.leaves i then x.before.advertisedBy i else 0 := by
  split
  · rename_i hleaves
    obtain ⟨now, hevent⟩ := Moment.leaves_iff.1 hleaves
    rw [Moment.retired, hevent]
  · rename_i hstays
    unfold Moment.retired
    split
    · rename_i j now hevent
      rw [hevent] at hi
      obtain rfl := Option.some.inj hi
      exact absurd (Moment.leaves_iff.2 ⟨now, hevent⟩) hstays
    · rfl

/-- Every advertisement is counted by an instance that is joined or was left. -/
theorem Moment.Valid.advertised (h : x.Valid p) :
    x.after.advertised + x.retired = x.before.advertised + if x.advertises then 1 else 0 := by
  cases hi : x.event.inst? with
  | none =>
    have hsame : x.after.dodags = x.before.dodags := by
      refine Table.ext_find? fun j => (h.confined.sameAbout ?_).dodag
      rw [hi]
      simp
    have hretired : x.retired = 0 := by
      unfold retired
      split
      · rename_i hevent
        rw [hevent] at hi
        cases hi
      · rfl
    rw [hretired, advertises, hi, Node.advertised, Node.advertised, hsame]
    rfl
  | some i =>
    have hothers (j : InstanceId) (hj : j ≠ i) :
        x.after.dodags.find? j = x.before.dodags.find? j := by
      refine (h.confined.sameAbout ?_).dodag
      rw [hi]
      exact fun heq => hj (Option.some.inj heq).symm
    have hsum := advertised_of_ne hothers
    have hcount := h.advertisedBy i
    rw [retired_eq hi, advertises, hi, Option.any_some]
    omega

end

/-! ## The account of one event -/

/-- What the node itself counts as sent. -/
def tallied (n : Node ρ) : Nat :=
  n.counts.daoSent + n.counts.disBroadcast + n.counts.probesSent

/-- All that is counted as sent, but for the advertisements of instances that were left. -/
def issued (n : Node ρ) : Nat := n.advertised + n.tallied

/-- Whom the event may address a message to. -/
def Moment.Addresses (x : Moment ρ) : Control → Prop
  | .dio i _ => x.before.dodags.contains i = true
  | .dis (some a) => ∃ i, x.event.inst? = some i ∧ x.before.preferred? i = some a
  | .dis none => ∀ i, x.before.dodags.contains i = false
  | .dao i a _ => x.before.preferred? i = some a

/-- The event hands over one message, if any.  The message is queued if there is room and counts as
dropped otherwise, and counts as issued in any case. -/
structure Moment.Accounted (x : Moment ρ) (msg? : Option Control) : Prop where
  outbox : x.after.outbox.toList =
    x.before.outbox.toList ++ if x.before.outbox.hasRoom then msg?.toList else []
  dropped : x.after.counts.controlDropped =
    x.before.counts.controlDropped + if x.before.outbox.hasRoom then 0 else msg?.toList.length
  issued : x.after.issued + x.retired = x.before.issued + msg?.toList.length
  addressed : ∀ msg ∈ msg?, x.Addresses msg

/-- A message is handed to the outbox, and the node counts it. -/
structure Posts (n m : Node ρ) (msg : Control) : Prop extends n.Hands m msg where
  tallied : m.tallied = n.tallied + 1

/-- No message is handed over, and none is counted. -/
structure Silent (n m : Node ρ) : Prop where
  outbox : m.outbox = n.outbox
  dropped : m.counts.controlDropped = n.counts.controlDropped
  tallied : m.tallied = n.tallied

/-- The counters that go up with a message that the node hands over. -/
def postings : List Counter := [.daoSent, .disBroadcast, .probesSent]

theorem tallied_of_get (h : ∀ c ∈ postings, m.counts.get c = n.counts.get c) :
    m.tallied = n.tallied := by
  have hdao : m.counts.daoSent = n.counts.daoSent := h .daoSent (by decide)
  have hdis : m.counts.disBroadcast = n.counts.disBroadcast := h .disBroadcast (by decide)
  have hprobes : m.counts.probesSent = n.counts.probesSent := h .probesSent (by decide)
  rw [tallied, tallied, hdao, hdis, hprobes]

/-- A message is counted and then handed over. -/
theorem posts_of_count {c : Counter} {t : TraceEvent} (hc : c ∈ postings) (hk : n.count c = .ok k)
    (hm : (k.emit t).send msg = .ok m) : n.Posts m msg := by
  have hhands := send_hands hm
  have hcounts {l : Counter} (hl : l ≠ .controlDropped) := send_counts hm hl
  have hdao : m.counts.daoSent = k.counts.daoSent := hcounts (l := .daoSent) (by decide)
  have hdis : m.counts.disBroadcast = k.counts.disBroadcast :=
    hcounts (l := .disBroadcast) (by decide)
  have hprobes : m.counts.probesSent = k.counts.probesSent := hcounts (l := .probesSent) (by decide)
  obtain ⟨-, rfl⟩ := count_eq_ok hk
  simp only [postings, List.mem_cons, List.not_mem_nil, or_false] at hc
  rcases hc with rfl | rfl | rfl
  all_goals
    refine ⟨⟨hhands.outbox, hhands.dropped⟩, ?_⟩
    simp only [Node.tallied, hdao, hdis, hprobes, NodeCounts.set, NodeCounts.get]
    omega

/-- Where no message and no counter of messages may be touched, none is. -/
theorem Confined.silent {f : Footprint} (h : n.Confined f m) (hmessages : f.messages = ∅)
    (hdropped : .controlDropped ∉ f.counters) (hposted : ∀ c ∈ postings, c ∉ f.counters) :
    n.Silent m where
  outbox := by
    obtain ⟨new, hnew, hmem⟩ := h.outbox
    have hnone : new = [] := by
      refine List.eq_nil_iff_forall_not_mem.2 fun msg hmsg => ?_
      have hsome := hmem msg hmsg
      rw [hmessages] at hsome
      exact hsome
    rw [hnone, List.append_nil] at hnew
    exact Mailbox.ext hnew
  dropped := h.counts .controlDropped hdropped
  tallied := tallied_of_get fun c hc => h.counts c (hposted c hc)

section

variable [RandomSource ρ]

/-- An event that is silent hands over nothing. -/
theorem Silent.accounted (h : x.before.Silent x.after) (hx : x.Valid p)
    (hquiet : x.advertises = false) : x.Accounted none where
  outbox := by rw [h.outbox, Option.toList_none, ite_self, List.append_nil]
  dropped := by rw [h.dropped, Option.toList_none, List.length_nil, ite_self, Nat.add_zero]
  issued := by
    have hcount := hx.advertised
    rw [hquiet, if_neg Bool.false_ne_true] at hcount
    rw [Node.issued, Node.issued, h.tallied, Option.toList_none, List.length_nil]
    omega
  addressed msg hmsg := by cases hmsg

/-- A message that is handed over is counted by the node or by the instance that it advertises. -/
theorem Hands.accounted (h : x.before.Hands x.after msg) (hx : x.Valid p)
    (htallied : x.after.tallied + (if x.advertises then 1 else 0) = x.before.tallied + 1)
    (haddressed : x.Addresses msg) : x.Accounted (some msg) where
  outbox := by
    rw [h.outbox]
    split
    · rfl
    · exact (List.append_nil _).symm
  dropped := h.dropped
  issued := by
    have hcount := hx.advertised
    rw [Node.issued, Node.issued, Option.toList_some, List.length_singleton]
    omega
  addressed msg' hmsg := by
    obtain rfl := Option.some.inj hmsg
    exact haddressed

theorem Posts.accounted (h : x.before.Posts x.after msg) (hx : x.Valid p)
    (hquiet : x.advertises = false) (haddressed : x.Addresses msg) : x.Accounted (some msg) := by
  refine h.toHands.accounted hx ?_ haddressed
  rw [hquiet, h.tallied]
  rfl

end

/-! ## What each activity hands over -/

variable {alarms : AlarmTable} {now : Instant}

theorem posts_sendProbe (h : n.sendProbe i a = .ok m) : n.Posts m (.dis (some a)) := by
  obtain ⟨k, hk, hm⟩ := Checked.bind_eq_ok_iff.1 h
  exact posts_of_count (by decide) hk hm

/-- A solicitation goes to the preferred parent. -/
theorem posts_solicit {out : Outcome (Node ρ)} (h : n.solicit i = .ok out) :
    (∃ a, n.preferred? i = some a ∧ n.Posts out.state (.dis (some a))) ∨ n.Silent out.state := by
  unfold solicit at h
  split at h
  · rw [← Except.ok.inj h]
    exact .inr ⟨rfl, rfl, rfl⟩
  rename_i d hd
  split at h
  · rw [← Except.ok.inj h]
    exact .inr ⟨rfl, rfl, rfl⟩
  · rename_i b hb
    obtain ⟨k, hk, h⟩ := Checked.bind_eq_ok_iff.1 h
    rw [← Except.ok.inj h]
    have hposts := posts_sendProbe hk
    exact .inl ⟨b, (preferred?_of_find? hd).trans hb, ⟨hposts.outbox, hposts.dropped⟩,
      hposts.tallied⟩

/-- The ticker asks all neighbours while the node belongs to no instance. -/
theorem posts_upkeepRings (h : upkeepRings p { n with alarms } = .ok m) :
    n.dodags.size = 0 ∧ n.Posts m (.dis none) ∨ n.Silent m := by
  obtain ⟨k, l, hk, hl, rfl⟩ := upkeepRings_eq_ok h
  obtain ⟨upkeep, -, -, rfl⟩ := ageRoutes_eq_ok hk
  rcases solicitDetached_eq_ok hl with ⟨⟨hdetached, -⟩, k, hk, hm⟩ | ⟨-, rfl⟩
  · have hposts := posts_of_count (by decide) hk hm
    exact .inl ⟨hdetached, ⟨hposts.outbox, hposts.dropped⟩, hposts.tallied⟩
  · exact .inr ⟨rfl, rfl, rfl⟩

/-- A report goes to the preferred parent. -/
theorem posts_reportRings (h : reportRings p { n with alarms } i now = .ok m) :
    (∃ a lifetime, n.preferred? i = some a ∧ n.Posts m (.dao i a lifetime)) ∨ n.Silent m := by
  rcases reportRings_eq_ok h with ⟨-, -, k, hk, rfl⟩ | ⟨-, ⟨-, rfl⟩ | ⟨d, hd, hmade⟩⟩
  · obtain ⟨-, rfl⟩ := count_eq_ok hk
    exact .inr ⟨rfl, rfl, rfl⟩
  · exact .inr ⟨rfl, rfl, rfl⟩
  · rcases hmade with ⟨a, k, l, ha, hk, hl, rfl⟩ | ⟨-, rfl⟩
    · have hposts := posts_of_count (by decide) hk hl
      have hpreferred : n.preferred? i = some a := (preferred?_of_find? hd).trans ha
      exact .inl ⟨a, _, hpreferred, ⟨hposts.outbox, hposts.dropped⟩, hposts.tallied⟩
    · exact .inr ⟨rfl, rfl, rfl⟩

variable [RandomSource ρ]

/-- A probe goes to the parent that is preferred still. -/
theorem posts_probeRings (h : probeRings p { n with alarms } i a now = .ok m) :
    n.preferred? i = some a ∧ n.Posts m (.dis (some a)) ∨ n.Silent m := by
  rcases probeRings_eq_ok h with ⟨rfl, -⟩ | ⟨hpreferred, -, k, hk, rfl⟩
  · exact .inr ⟨rfl, rfl, rfl⟩
  · have hposts := posts_sendProbe hk
    obtain ⟨source, after, -, heq⟩ := armProbe_eq p k i a now
    rw [heq]
    exact .inl ⟨hpreferred, ⟨hposts.outbox, hposts.dropped⟩, hposts.tallied⟩

/-- The trickle timer hands over an advertisement where it decides to, and nothing otherwise. -/
theorem hands_advertiseRings (h : advertiseRings p { n with alarms } i now = .ok m) :
    (∃ d, n.dodags.find? i = some d ∧ n.latchReady.mayAdvertise = true ∧ d.phase = .listen ∧
        d.heard < d.params.redundancy.toNat ∧ n.Hands m (.dio i d.lookahead)) ∨
      (m.outbox.toList = n.outbox.toList ∧ m.counts.controlDropped = n.counts.controlDropped ∧
        ∀ d, n.dodags.find? i = some d → n.latchReady.mayAdvertise = true → d.phase = .listen →
          d.params.redundancy.toNat ≤ d.heard) := by
  rcases advertiseRings_eq_ok h with ⟨hnot, k, hk, rfl⟩ | ⟨hready, ⟨hnone, rfl⟩ | ⟨d, hd, hturn⟩⟩
  · obtain ⟨-, rfl⟩ := count_eq_ok hk
    refine .inr ⟨rfl, rfl, fun d hd hready => ?_⟩
    exact absurd (hnot.symm.trans hready) Bool.false_ne_true
  · refine .inr ⟨rfl, rfl, fun d hd => ?_⟩
    cases hnone.symm.trans hd
  · rcases hturn with ⟨hphase, hdecision⟩ | ⟨hphase, hend⟩
    · obtain ⟨d', -, ⟨hheard, hadvertises⟩ | ⟨hheard, hsuppresses⟩⟩ := takeDecision_hands hdecision
      · exact .inl ⟨d, hd, hready, hphase, hheard, hadvertises.outbox, hadvertises.dropped⟩
      · refine .inr ⟨hsuppresses.outbox, hsuppresses.dropped, fun d' hd' _ _ => ?_⟩
        obtain rfl := Option.some.inj (hd.symm.trans hd')
        exact hheard
    · obtain ⟨split, d', source, -, rfl⟩ :=
        beginInterval_eq_ok (Table.find?_insert.trans (if_pos rfl)) hend
      refine .inr ⟨rfl, rfl, fun d' hd' _ hlisten => ?_⟩
      obtain rfl := Option.some.inj (hd.symm.trans hd')
      exact absurd hlisten hphase

/-! ## Every event has its account -/

/-- A trickle timer that rings takes its decision exactly in its listen phase and if it is not put
off. -/
theorem Moment.Valid.decides_iff {t : Timer} (h : x.Valid p) (ht : x.before.timer? i = some t)
    (hevent : x.event = .ring ⟨.advertise i, e⟩) :
    x.decides i = true ↔ x.before.latchReady.mayAdvertise = true ∧ t.state.phase = .listen := by
  have hsignal : x.event.signal? i = some (.ring e) := by simp [hevent, Event.signal?]
  cases h.course ht with
  | idle hfires =>
    rw [fires_of_ring hsignal] at hfires
    cases hfires
  | postponed _ _ hready _ hdecides => simp [hready, hdecides]
  | decided _ _ hready hphase _ hdecides => simp [hready, hphase, hdecides]
  | ended _ _ _ hphase _ hdecides => simp [hphase, hdecides]
  | reset hsignal' | left hsignal' => cases hsignal.symm.trans hsignal'

/-- Only a trickle timer that rings advertises. -/
theorem Moment.Valid.advertises_eq_false (h : x.Valid p)
    (hevent : ∀ i e, x.event ≠ .ring ⟨.advertise i, e⟩) : x.advertises = false := by
  rw [Bool.eq_false_iff]
  intro hyes
  obtain ⟨i, -, hannounces⟩ := (Option.any_eq_true _ _).1 hyes
  obtain ⟨hdecides, hfew⟩ := Bool.and_eq_true_iff.1 hannounces
  obtain ⟨t, ht, -⟩ := (Option.any_eq_true _ _).1 hfew
  obtain ⟨e, hsignal, -⟩ := (h.course ht).of_decides hdecides
  exact hevent i e (Event.eq_ring_of_signal? hsignal)

/-- A trickle timer that rings advertises its instance as its decision says. -/
theorem Moment.Valid.accounted_advertise (h : x.Valid p)
    (hevent : x.event = .ring ⟨.advertise i, e⟩) : ∃ msg?, x.Accounted msg? := by
  obtain ⟨-, hring⟩ := h.rang hevent
  have htallied : x.after.tallied = x.before.tallied := by
    refine tallied_of_get fun c hc => h.confined.counts c ?_
    simp only [postings, List.mem_cons, List.not_mem_nil, or_false] at hc
    rcases hc with rfl | rfl | rfl <;> simp [hevent]
  have hadvertises : x.advertises = x.announces i := by
    rw [advertises, hevent]
    rfl
  rcases hands_advertiseRings hring with ⟨d, hd, hready, hphase, hheard, hhands⟩ |
    ⟨hbox, hdropped, hmany⟩
  · have ht := timer?_of_find? hd
    have hannounces : x.announces i = true := by
      rw [announces, (h.decides_iff ht hevent).2 ⟨hready, hphase⟩, ht]
      exact decide_eq_true hheard
    refine ⟨_, hhands.accounted h ?_ (Table.contains_of_find? hd)⟩
    rw [hadvertises, hannounces, htallied]
    rfl
  · have hannounces : x.announces i = false := by
      rw [Bool.eq_false_iff]
      intro hyes
      obtain ⟨hdecides, hfew⟩ := Bool.and_eq_true_iff.1 hyes
      obtain ⟨t, ht, hfew⟩ := (Option.any_eq_true _ _).1 hfew
      obtain ⟨d, hd, rfl⟩ := find?_of_timer? ht
      obtain ⟨hready, hphase⟩ := (h.decides_iff ht hevent).1 hdecides
      exact absurd (hmany d hd hready hphase) (Nat.not_le.2 (of_decide_eq_true hfew))
    have hsilent : x.before.Silent x.after := ⟨Mailbox.ext hbox, hdropped, htallied⟩
    exact ⟨_, hsilent.accounted h (hadvertises.trans hannounces)⟩

/-- Every event of a run has its account. -/
theorem Moment.Valid.accounted (h : x.Valid p) : ∃ msg?, x.Accounted msg? := by
  by_cases hadvertise : ∃ i e, x.event = .ring ⟨.advertise i, e⟩
  · obtain ⟨i, e, hevent⟩ := hadvertise
    exact h.accounted_advertise hevent
  have hquiet := h.advertises_eq_false fun i e hevent => hadvertise ⟨i, e, hevent⟩
  have hsilent (hmessages : x.event.footprint.messages = ∅)
      (hdropped : .controlDropped ∉ x.event.footprint.counters)
      (hposted : ∀ c ∈ postings, c ∉ x.event.footprint.counters) : ∃ msg?, x.Accounted msg? :=
    ⟨none, (h.confined.silent hmessages hdropped hposted).accounted h hquiet⟩
  cases hevent : x.event with
  | request o now =>
    rw [hevent] at hsilent
    cases o with
    | command c =>
      cases c with
      | solicit i =>
        obtain ⟨-, out, hout, hafter⟩ := h.performed hevent
        rcases posts_solicit hout with ⟨a, ha, hposts⟩ | hsilent
        · rw [← hafter] at hposts
          exact ⟨_, hposts.accounted h hquiet ⟨i, by rw [hevent]; rfl, ha⟩⟩
        · rw [← hafter] at hsilent
          exact ⟨_, hsilent.accounted h hquiet⟩
      | resetDio | scheduleDao | dioConsistent | dioReceived | setPreferred | restartUpkeep =>
        exact hsilent rfl (by simp) (by simp [postings])
    | join | leave | addParent | removeParent | scheduleReception | handleTimer =>
      exact hsilent rfl (by simp) (by simp [postings])
  | ring r =>
    rw [hevent] at hsilent
    obtain ⟨-, hring⟩ := h.rang hevent
    obtain ⟨q, due⟩ := r
    cases q with
    | upkeep =>
      rcases posts_upkeepRings hring with ⟨hdetached, hposts⟩ | hsilent
      · exact ⟨_, hposts.accounted h hquiet (Table.size_eq_zero_iff.1 hdetached)⟩
      · exact ⟨_, hsilent.accounted h hquiet⟩
    | advertise i => exact absurd ⟨i, due, hevent⟩ hadvertise
    | report i =>
      rcases posts_reportRings hring with ⟨a, lifetime, ha, hposts⟩ | hsilent
      · exact ⟨_, hposts.accounted h hquiet ha⟩
      · exact ⟨_, hsilent.accounted h hquiet⟩
    | watch i a => exact hsilent rfl (by simp) (by simp [postings])
    | probe i a =>
      rcases posts_probeRings hring with ⟨ha, hposts⟩ | hsilent
      · exact ⟨_, hposts.accounted h hquiet ⟨i, by rw [hevent]; rfl, ha⟩⟩
      · exact ⟨_, hsilent.accounted h hquiet⟩
  | settled now =>
    rw [hevent] at hsilent
    exact hsilent rfl (by simp) (by simp [postings])

/-! ## Runs -/

omit [RandomSource ρ] in
theorem Moment.Accounted.outbox_eq (h : x.Accounted msg?) :
    x.after.outbox.toList = x.before.outbox.toList ++ x.queued := by
  have hbox := h.outbox
  rw [queued, hbox, List.drop_left]

omit [RandomSource ρ] in
theorem Moment.Accounted.queued_eq (h : x.Accounted msg?) :
    x.queued = if x.before.outbox.hasRoom then msg?.toList else [] := by
  rw [queued, h.outbox, List.drop_left]

/-- Along a trail all that was counted as issued was queued or dropped. -/
theorem Trail.issued_balance (h : Trail p n ms k) (hissued : n.issued = 0)
    (hdropped : n.counts.controlDropped = 0) :
    (ms.map Moment.retired).sum + k.issued =
      (ms.flatMap Moment.queued).length + k.counts.controlDropped := by
  refine h.snoc_induction (motive := fun ms k => (ms.map Moment.retired).sum + k.issued =
    (ms.flatMap Moment.queued).length + k.counts.controlDropped) ?_ ?_ ?_
  · rw [hissued, hdropped]
    rfl
  · intro ms n m hsame ih
    rw [Node.issued, Node.advertised, tallied, hsame.dodags, hsame.counts]
    exact ih
  · intro ms x hx ih
    obtain ⟨msg?, haccounted⟩ := hx.accounted
    have hissued := haccounted.issued
    have hdropped := haccounted.dropped
    rw [List.map_append, List.sum_append, List.flatMap_append, List.length_append,
      List.map_singleton, List.sum_singleton, List.flatMap_singleton, haccounted.queued_eq]
    split_ifs at hdropped ⊢ with hroom
    · omega
    · rw [List.length_nil]
      omega

/-- No message gets lost uncounted.  In a run that starts with a new node, the advertisements that
all instances ever joined have counted as sent, with the reports, the broadcast and the unicast
solicitations that the node has counted, are as many as the messages that the outbox has accepted
and those that count as dropped.  The messages that the transport has taken so far, whenever it took
them, and those that still wait are the accepted ones, in the order in which they were queued.

No event queues more than one message.  A message is dropped, one at an event, only when sixteen
messages wait, and then nothing is queued.  Unicast solicitations and reports are addressed to the
parent that is preferred in their instance at that moment, and no broadcast solicitation is queued
while an instance is joined. -/
theorem messages_are_accounted_for {source : ρ} {clock : Instant} {ready : Bool}
    (hrun : Run p (.new source clock ready) ms n)
    (hdrains : Drains (.new source clock ready) ms taken n) :
    (ms.map Moment.retired).sum + n.advertised + n.counts.daoSent + n.counts.disBroadcast +
        n.counts.probesSent =
      (ms.flatMap Moment.queued).length + n.counts.controlDropped ∧
    taken ++ n.outbox.toList = ms.flatMap Moment.queued ∧
    ∀ x ∈ ms, x.after.outbox.toList = x.before.outbox.toList ++ x.queued ∧ x.queued.length ≤ 1 ∧
      (x.after.counts.controlDropped ≠ x.before.counts.controlDropped →
        x.before.outbox.toList.length = 16 ∧ x.queued = [] ∧
          x.after.counts.controlDropped = x.before.counts.controlDropped + 1) ∧
      ∀ msg ∈ x.queued, x.Addresses msg := by
  have hvalid (x : Moment ρ) (hx : x ∈ ms) : x.Valid p := by
    obtain ⟨pre, post, rfl⟩ := List.append_of_mem hx
    exact hrun.trail.cut.2.1
  refine ⟨?_, ?_, fun x hx => ?_⟩
  · have hbalance := hrun.trail.issued_balance rfl rfl
    rw [Node.issued, tallied] at hbalance
    omega
  · refine hdrains.in_order fun x hx => ?_
    obtain ⟨msg?, haccounted⟩ := (hvalid x hx).accounted
    exact haccounted.outbox_eq
  · obtain ⟨msg?, haccounted⟩ := (hvalid x hx).accounted
    have hdropped := haccounted.dropped
    rw [haccounted.queued_eq]
    refine ⟨haccounted.queued_eq ▸ haccounted.outbox_eq, ?_, fun hchanged => ?_, ?_⟩
    · split_ifs
      · exact Option.length_toList_le
      · exact Nat.zero_le 1
    · have hfull : ¬x.before.outbox.hasRoom = true := by
        intro hroom
        rw [if_pos hroom] at hdropped
        exact hchanged hdropped
      have hone : msg?.toList.length ≤ 1 := Option.length_toList_le
      have hcapacity : x.before.outbox.toList.length ≤ 16 := x.before.outbox.length_le
      have hwaiting : ¬x.before.outbox.toList.length < 16 :=
        fun h => hfull (Mailbox.hasRoom_iff.2 h)
      rw [if_neg hfull] at hdropped
      exact ⟨by omega, if_neg hfull, by omega⟩
    · intro msg hmsg
      split_ifs at hmsg
      · exact haccounted.addressed msg (Option.mem_toList.1 hmsg)
      · cases hmsg

theorem Rings.drains {now : Instant} (h : Rings p now n ms k) : Drains n ms [] k := by
  induction h with
  | @settled n hnone => exact Drains.event ⟨n, .settled now, n⟩ (.nil rfl)
  | @ring n m k r alarms ms _ _ _ ih => exact Drains.event ⟨n, .ring r, m⟩ ih

/-- While requests are carried out and recorded, nothing is taken out of the outbox. -/
theorem drains_of_record {os : List (Operation × Instant)} (h : n.record p os = .ok (ms, k)) :
    Drains n ms [] k := by
  induction os generalizing n ms with
  | nil =>
    cases h
    exact .nil rfl
  | cons e os ih =>
    obtain ⟨o, now⟩ := e
    obtain ⟨⟨rs, m⟩, hrs, h⟩ := Checked.bind_eq_ok_iff.1 h
    obtain ⟨⟨ms', l⟩, hms, h⟩ := Checked.bind_eq_ok_iff.1 h
    cases h
    rcases recordRequest_eq_ok hrs with hrings | ⟨-, out, -, rfl, rfl⟩
    · exact hrings.drains.append (ih hms)
    · exact Drains.event ⟨n, .request o now, out.state⟩ (ih hms)

/-- Requests to a node that reports, advertises, and asks its parent seventeen times in one tick. -/
def askedOften : List (Operation × Instant) :=
  [(.join 1 {}, .zero), (.addParent 1 (.linkLocal 2), .zero),
    (.command (.setPreferred 1 (some (.linkLocal 2))), .zero),
    (.command (.scheduleDao 1), .zero), (.handleTimer, .ofTicks 2048)] ++
      List.replicate 17 (.command (.solicit 1), .ofTicks 2048)

/-- Requests to the same node, which leaves its instance and asks all neighbours once it is
detached. -/
def leftAlone : List (Operation × Instant) :=
  [(.leave 1, .ofTicks 2048), (.command .restartUpkeep, .ofTicks 2048),
    (.handleTimer, .ofTicks 7048)]

/-- Three of the seventeen solicitations find the outbox full.  The transport empties it before the
node leaves its instance, whose advertisement is accounted for still. -/
theorem messages_are_accounted_for_though_dropped :
    ∃ (ms ms' : List (Moment Generator)) (n n' : Node Generator),
      record .millis askedOften (.new (.fixed 0) .zero true) = .ok (ms, n) ∧
      n.outbox.toList.length = 16 ∧ n.counts.controlDropped = 3 ∧ n.advertised = 1 ∧
      record .millis leftAlone n.takeOutbox.2 = .ok (ms', n') ∧
      n'.advertised = 0 ∧ n'.counts.daoSent = 1 ∧ n'.counts.disBroadcast = 1 ∧
      n'.counts.probesSent = 17 ∧ n'.counts.controlDropped = 3 ∧ n'.outbox.toList = [.dis none] ∧
      ((ms ++ ms').map Moment.retired).sum = 1 ∧
      n.outbox.toList ++ [.dis none] = (ms ++ ms').flatMap Moment.queued := by
  obtain ⟨ms, ms', n, n', hrecord, hfull, hdropped, hadvertised, hrecord', hleft, hdao, hdis,
      hprobes, hdropped', hbox⟩ :
      ∃ (ms ms' : List (Moment Generator)) (n n' : Node Generator),
        record .millis askedOften (.new (.fixed 0) .zero true) = .ok (ms, n) ∧
        n.outbox.toList.length = 16 ∧ n.counts.controlDropped = 3 ∧ n.advertised = 1 ∧
        record .millis leftAlone n.takeOutbox.2 = .ok (ms', n') ∧
        n'.advertised = 0 ∧ n'.counts.daoSent = 1 ∧ n'.counts.disBroadcast = 1 ∧
        n'.counts.probesSent = 17 ∧ n'.counts.controlDropped = 3 ∧ n'.outbox.toList = [.dis none] :=
    ⟨_, _, _, _, rfl, rfl, rfl, rfl, rfl, rfl, rfl, rfl, rfl, rfl, rfl⟩
  have hrun : Run .millis (.new (Generator.fixed 0) .zero true) (ms ++ ms') n' :=
    ((Run.start.record hrecord).outside (sameCore_takeOutbox n)).record hrecord'
  have hdrains : Drains (.new (Generator.fixed 0) .zero true) (ms ++ ms') n.outbox.toList n' := by
    have hrest := (drains_takeOutbox n).append (drains_of_record hrecord')
    have hall := (drains_of_record hrecord).append hrest
    rw [List.nil_append, List.append_nil, List.nil_append] at hall
    exact hall
  obtain ⟨hbalance, horder, -⟩ := messages_are_accounted_for hrun hdrains
  rw [hbox] at horder
  refine ⟨ms, ms', n, n', hrecord, hfull, hdropped, hadvertised, hrecord', hleft, hdao, hdis,
    hprobes, hdropped', hbox, ?_, horder⟩
  have hlength := congrArg List.length horder
  rw [List.length_append, List.length_singleton, hfull] at hlength
  omega

end TrickleNet.Node

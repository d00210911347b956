import Mathlib
import TrickleNet.Proofs.Collecting
import TrickleNet.Proofs.Debounce
import TrickleNet.Proofs.Overflow
import TrickleNet.Proofs.Standing
import TrickleNet.Proofs.Timer
/-!
# An advertisement is heard whole or not at all

A station that hears an advertisement makes up to six requests to its node, and has changed by the
time the second one is made.  Only the first of them can be refused: once the node has joined, the
sender is its first candidate parent (`Node.addParent_entered`), can be preferred
(`Node.setPreferred_entered`) and is reported to, and the record that the next advertisement is
predicted from is there.  A station that has joined already is refused nothing, since a full table
of parents is passed over (`Station.addBackup_eq`).

`Station.Admits` is what is left behind by an advertisement that is not refused.
`Station.Overflows` names the two counters that may be full, which stops the call.
`Station.advertisements_are_all_or_nothing` puts it together for the stations that calls lead to
(`Station.Reachable`).
-/

namespace TrickleNet

theorem Checked.bind_of_ok {α β : Type} {x : Checked α} {g : α → Checked β} {a : α}
    (h : x = .ok a) : x >>= g = g a := by
  rw [h]
  rfl

namespace Node

variable {ρ : Type} {p : Platform} {n m : Node ρ} {i : InstanceId} {a : Address} {d : Dodag}
  {c : Counter} {now : Instant} {f : Fault}

/-- How many advertisements the node has heard in the current interval of an instance. -/
def heard (n : Node ρ) (i : InstanceId) : Nat := ((n.dodags.find? i).map Dodag.heard).getD 0

theorem heard_of_find? (hd : n.dodags.find? i = some d) : n.heard i = d.heard := by
  rw [heard, hd]
  rfl

theorem contains_of_standing? {st : Standing} (h : n.standing? i = some st) :
    n.dodags.contains i = true := by
  obtain ⟨d, hd, -⟩ := standing?_eq_some_iff.1 h
  exact Table.contains_of_find? hd

/-- The neighbour is the preferred parent, whose advertisement was expected before this instant. -/
def Overdue (n : Node ρ) (i : InstanceId) (a : Address) (now : Instant) : Prop :=
  n.preferred? i = some a ∧
    ∃ w, n.watch? i a = some w ∧ w.stage = .awaitingWindow ∧ w.expected < now

theorem overdue_congr (h : m.track i a = n.track i a) : m.Overdue i a now ↔ n.Overdue i a now := by
  obtain ⟨hpref, hwatch, -, -⟩ := Track.mk.inj h
  rw [Overdue, Overdue, hwatch, hpref]

/-! ## What may overflow -/

theorem count_eq_error_iff : n.count c = .error f ↔ f = .addOverflow ∧ ¬n.Spare c := by
  have hbump : n.counts.bump c = .error f ↔ countUp (n.counts.get c) = .error f := by
    simp [NodeCounts.bump, Checked.bind_eq_error_iff, pure, Except.pure]
  have hcount : n.count c = .error f ↔ n.counts.bump c = .error f := by
    simp [count, Checked.bind_eq_error_iff, pure, Except.pure]
  rw [hcount, hbump, countUp, addChecked_eq_error_iff, Spare, Nat.not_lt]

theorem lateHeard_eq_error_iff {w : Watch} {delay listen jitter : Span} (hlate : w.expected < now) :
    n.lateHeard i d a w delay listen jitter now = .error f ↔
      f = .addOverflow ∧ ¬n.Spare .latencySamples := by
  obtain ⟨latency, hl⟩ := Checked.Returns.since? hlate
  have hspare : (n.putWatch i d a { w with latency := some latency }).Spare .latencySamples ↔
      n.Spare .latencySamples := Iff.rfl
  rw [lateHeard, hl]
  show (Node.count _ _ >>= _) = _ ↔ _
  rw [Checked.bind_eq_error_iff, count_eq_error_iff, hspare]
  exact or_iff_left (by rintro ⟨k, -, hk⟩; cases hk)

theorem overdue_iff {w : Watch} (listen jitter : Span) (hd : n.dodags.find? i = some d)
    (hpref : d.preferred = some a) (hw : d.parents.find? a = some w) :
    n.Overdue i a now ↔ w.reception listen jitter now = .late := by
  rw [Overdue, preferred?_of_find? hd, watch?, hd, Option.bind_some, hw,
    Watch.reception_eq_late_iff]
  simp [hpref]

/-- An advertisement that is received overflows nothing but the counter of samples, and that only if
there is a sample to take. -/
theorem dioReceived_eq_error_iff {l : Lookahead} :
    dioReceived p n i a l now = .error f ↔
      f = .addOverflow ∧ n.Overdue i a now ∧ ¬n.Spare .latencySamples := by
  by_cases htracked : (n.track i a).preferred ∧ (n.track i a).watch.isSome
  · obtain ⟨hpref, hsome⟩ := htracked
    obtain ⟨w, hw⟩ := Option.isSome_iff_exists.1 hsome
    obtain ⟨d, hd, hpref, hw⟩ := dodag_of_track hpref hw
    rw [overdue_iff l.listen (l.jitter + p.receptionSkew) hd hpref hw,
      dioReceived_eq hd hpref hw]
    cases hr : w.reception l.listen (l.jitter + p.receptionSkew) now with
    | late =>
      rw [lateHeard_eq_error_iff (Watch.reception_eq_late_iff.1 hr).2]
      simp
    | first | answer | repeated | early | overlooked => simp
  · constructor
    · intro h
      refine absurd h ?_
      unfold dioReceived
      split
      · nofun
      rename_i d hd
      rw [track_of_find? hd] at htracked
      split
      · nofun
      rename_i hpref
      split
      · nofun
      · rename_i w hw
        exact (htracked ⟨not_ne_iff.1 hpref, by simp [hw]⟩).elim
    · rintro ⟨-, ⟨hpref, w, hw, -⟩, -⟩
      exact (htracked ⟨hpref, by rw [track, hw]; rfl⟩).elim

/-- To join overflows nothing but the counter of resets. -/
theorem join_eq_error_iff [RandomSource ρ] {params : TrickleParams}
    (hreason : n.outside p i params = none) :
    join p n i params now = .error f ↔ f = .addOverflow ∧ ¬n.Spare .dioResets := by
  constructor
  · intro h
    obtain ⟨hf, hfull⟩ := join_finishes_of_outside hreason f h
    exact ⟨hf, Nat.not_lt.2 hfull⟩
  · intro h
    rw [join_eq hreason, resetDio, find?_putDodag_self]
    exact Checked.bind_eq_error_iff.2 (.inl (count_eq_error_iff.2 h))

/-! ## An instance that was just joined -/

section Entered

variable [RandomSource ρ] {out : Outcome (Node ρ)}

/-- An instance that was just joined has no parents, and nothing was heard in it. -/
theorem join_entered {params : TrickleParams} (hreason : n.outside p i params = none)
    (h : join p n i params now = .ok out) :
    out.refusal = none ∧ ∃ d, out.state.dodags.find? i = some d ∧ d.preferred = none ∧
      d.parents = ∅ ∧ d.heard = 0 := by
  rw [join_eq hreason] at h
  refine ⟨refusal_resetDio_entered h, ?_⟩
  rcases resetDio_eq_ok h with hsame | ⟨d, k, hd, hk, hm⟩
  · exact ⟨.new params, by rw [hsame, find?_putDodag_self], rfl, rfl, rfl⟩
  · obtain rfl := Option.some.inj (find?_putDodag_self.symm.trans hd)
    obtain ⟨-, rfl⟩ := count_eq_ok hk
    obtain ⟨split, d', source, hbegin, hstate⟩ :=
      beginInterval_eq_ok (d := (Dodag.new params).restart) (by simp [emit, putDodag]) hm
    obtain ⟨middle, next, -, -, -, -, rfl⟩ := Dodag.begin_eq_ok hbegin
    exact ⟨_, by rw [hstate]; exact find?_putDodag_self, rfl, rfl, rfl⟩

omit [RandomSource ρ] in
/-- The first candidate parent is registered. -/
theorem addParent_entered (hd : n.dodags.find? i = some d) (hempty : d.parents = ∅)
    (hroom : 0 < p.maxParents) :
    addParent p n i a =
      .granted (n.putDodag i { d with parents := (∅ : Table Address Watch).insert a {} }) := by
  have hnew : (∅ : Table Address Watch).contains a = false := rfl
  have hsize : ¬p.maxParents ≤ (∅ : Table Address Watch).size := Nat.not_le.2 hroom
  simp only [addParent, hd, hempty, hnew, Bool.false_eq_true, if_false, hsize]

omit [RandomSource ρ] in
/-- A candidate parent is preferred if none was. -/
theorem setPreferred_entered (hd : n.dodags.find? i = some d) (hpref : d.preferred = none)
    (hcandidate : d.parents.contains a = true) :
    n.setPreferred i (some a) = .granted (n.putDodag i { d with preferred := some a }) := by
  simp [setPreferred, hd, hpref, hcandidate]

/-- A report is pending once it was scheduled. -/
theorem scheduleDao_pending (hi : n.dodags.contains i = true)
    (h : scheduleDao p n i now = .ok out) :
    out.refusal = none ∧ out.state.dodags = n.dodags ∧
      out.state.alarms.isArmed (.report i) = true := by
  rcases scheduleDao_eq_ok h with ⟨hnot, -⟩ | ⟨-, ⟨harmed, rfl⟩ | ⟨-, source, delay, -, rfl⟩⟩
  · rw [hi] at hnot
    cases hnot
  · exact ⟨rfl, rfl, harmed⟩
  · exact ⟨rfl, rfl, AlarmTable.isArmed_iff.2 ⟨_, AlarmTable.deadline?_set.trans (if_pos rfl)⟩⟩

end Entered

/-! ## An advertisement that is heard -/

/-- An advertisement of another neighbour than the preferred parent is of no further interest. -/
theorem dioReceived_of_ne {l : Lookahead} (hd : n.dodags.find? i = some d)
    (hpref : d.preferred ≠ some a) : dioReceived p n i a l now = .ok (.granted n) := by
  simp only [dioReceived, hd]
  exact if_pos hpref

/-- Whoever is heard, an advertisement is counted and the parents stay, and so does a report that is
pending. -/
theorem dioReceived_heard {l : Lookahead} {out : Outcome (Node ρ)} (hd : n.dodags.find? i = some d)
    (hregistered : d.preferred = some a → d.parents.contains a = true)
    (h : dioReceived p (n.putDodag i d.hear) i a l now = .ok out) :
    out.refusal = none ∧ out.state.heard i = min (n.heard i + 1) 255 ∧
      out.state.standing? i = n.standing? i ∧
      out.state.alarms.isArmed (.report i) = n.alarms.isArmed (.report i) := by
  have hfind : (n.putDodag i d.hear).dodags.find? i = some d.hear := find?_putDodag_self
  refine ⟨?_, ?_, ?_, ?_⟩
  · have hjudged : (n.putDodag i d.hear).Judged
        (dioReceived p (n.putDodag i d.hear) i a l now) _ :=
      judged_dioReceived fun d' hd' => by
        obtain rfl := Option.some.inj (hfind.symm.trans hd')
        exact hregistered
    rw [within, hfind] at hjudged
    exact hjudged out h
  · have htimer := (sameAdverts_dioReceived h).timers i
    rw [timer?_of_find? hfind] at htimer
    obtain ⟨d', hd', ht⟩ := find?_of_timer? htimer
    have hheard : d.hear.heard = d'.heard := congrArg (fun t => t.state.heard) ht
    rw [heard_of_find? hd', heard_of_find? hd, ← hheard]
    rfl
  · rw [(keeps_dioReceived h).standing?_eq i, standing?, standing?, hfind, hd]
    rfl
  · have hslot := (confined_dioReceived h).slots (.report i) (by simp)
    rw [AlarmTable.isArmed, AlarmTable.isArmed, AlarmTable.deadline?, AlarmTable.deadline?, hslot]
    rfl

/-- The first advertisement of the preferred parent sets an alarm for the window that it
announces. -/
theorem dioReceived_first {l : Lookahead} {out : Outcome (Node ρ)} {w : Watch}
    (hd : n.dodags.find? i = some d) (hpref : d.preferred = some a)
    (hw : d.parents.find? a = some w) (hfirst : w.stage = .awaitingFirst)
    (h : dioReceived p n i a l now = .ok out) :
    (∃ w', out.state.watch? i a = some w' ∧ w'.stage = .awaitingWindow) ∧
      out.state.alarms.isArmed (.watch i a) = true := by
  have htrack := track_dioReceived (i := i) (a := a) hd hpref hw h
  rw [if_pos ⟨rfl, rfl⟩] at htrack
  obtain ⟨-, hwatch, hclosing, -⟩ := Track.mk.inj htrack
  have hreception : w.reception l.listen (l.jitter + p.receptionSkew) now = .first := by
    rw [Watch.reception_eq_first_iff, Watch.tracking, hfirst]
  refine ⟨⟨_, hwatch, ?_⟩, ?_⟩
  · simp [Watch.hear, hreception, Watch.predict]
  · rw [AlarmTable.isArmed, hclosing, Watch.closing?, hreception]
    rfl

end Node

/-! ## Stations -/

namespace Station

/-- The stations that calls lead to.  Besides the calls of its own a station lets requests through
to its node, and the world outside may change the clock, the address and the queues. -/
inductive Reachable : Station → Prop
  | new (address : Address) (seed : UInt64) (now : Instant) : Reachable (.new address seed now)
  | start {t t' : Station} {now : Instant} : Reachable t → t.start now = .ok t' → Reachable t'
  | form {t : Station} {i : InstanceId} {params : TrickleParams} {now : Instant}
      {out : Outcome Station} :
      Reachable t → t.form i params now = .ok out → Reachable out.state
  | handleTimer {t t' : Station} {now : Instant} :
      Reachable t → t.handleTimer now = .ok t' → Reachable t'
  | heardDio {t : Station} {sender : Address} {senderHop : Nat} {i : InstanceId} {l : Lookahead}
      {params : TrickleParams} {now : Instant} {out : Outcome Station} :
      Reachable t → t.heardDio sender senderHop i l params now = .ok out → Reachable out.state
  | heardDis {t t' : Station} {now : Instant} :
      Reachable t → t.heardDis now = .ok t' → Reachable t'
  | heardDao {t t' : Station} {parent : Address} {reported : Bool} :
      Reachable t → t.heardDao parent = .ok (reported, t') → Reachable t'
  | request {t : Station} {o : Operation} {now : Instant} {out : Outcome (Node Generator)} :
      Reachable t → t.node.perform .simulated o now = .ok out →
        Reachable { t with node := out.state }
  | outside {t : Station} {n : Node Generator} :
      Reachable t → t.node.SameCore n → Reachable { t with node := n }
  | planned {t : Station} {wake : Option Instant} : Reachable t → Reachable { t with wake }

variable {t t' u : Station} {i : InstanceId} {now : Instant} {o : Operation} {f : Fault}
  {sender : Address} {senderHop : Nat} {params : TrickleParams} {l : Lookahead} {d : Dodag}

/-- A solicitation restarts one trickle timer after the other. -/
theorem reachable_heardDis (ht : t.node.Reachable .simulated) (h : t.heardDis now = .ok t') :
    t'.node.Reachable .simulated := by
  refine Checked.foldlM_rel
    (R := fun u v => u.node.Reachable .simulated → v.node.Reachable .simulated)
    (fun _ => id) (fun _ _ _ h h' => h' ∘ h) (fun j _ u v huv hu => ?_) h (ht.setClock now)
  exact (asks_demand (.resetDio (i := j)) huv).reachable hu

/-- No call leads out of the reachable nodes. -/
theorem Reachable.node (ht : t.Reachable) : t.node.Reachable .simulated := by
  induction ht with
  | new address seed now => exact Node.reachable_new _ _ _ _
  | start _ h ih => exact (asks_start (i := 0) h).reachable ih
  | form _ h ih => exact (asks_form h).reachable ih
  | handleTimer _ h ih =>
    obtain ⟨n, ms, rfl, hn, -⟩ := rung_of_handleTimer ih h
    exact hn
  | heardDio _ h ih => exact (asks_heardDio h).reachable ih
  | heardDis _ h ih => exact reachable_heardDis ih h
  | @heardDao t t' _ _ _ h ih =>
    have hasks : Asks 0 .zero 0 t t' := asks_heardDao h
    exact hasks.reachable ih
  | request _ h ih => exact ih.perform h
  | outside _ h ih => exact ih.sameCore h
  | planned _ ih => exact ih

/-! ### The requests that a station makes -/

theorem perform_of_ok {out : Outcome (Node Generator)}
    (h : Node.perform .simulated (t.setClock now).node o now = .ok out) :
    t.perform o now = .ok (out.map fun node => { t with node }) := by
  rw [perform, h]
  rfl

theorem perform_of_granted {n : Node Generator}
    (h : Node.perform .simulated (t.setClock now).node o now = .ok (.granted n)) :
    t.perform o now = .ok (.granted { t with node := n }) :=
  perform_of_ok h

theorem perform_of_error (h : Node.perform .simulated (t.setClock now).node o now = .error f) :
    t.perform o now = .error f := by
  rw [perform, h]
  rfl

/-- A station that was refused to join stays outside. -/
theorem joinThrough_refused (sender : Address) (senderHop : Nat) (now : Instant) {r : Refusal}
    (h : t.node.outside .simulated i params = some r) :
    t.joinThrough sender senderHop i params now = .ok (.refused r (t.setClock now)) := by
  have hjudged : (t.setClock now).node.Judged
      (Node.join .simulated (t.setClock now).node i params now)
      (t.node.outside .simulated i params) :=
    Node.judged_join
  rw [h] at hjudged
  rw [joinThrough, perform_of_ok (o := .join i params) hjudged]
  rfl

/-- What a station knows of an instance that it joined through the sender, before it has heard
it. -/
structure Entered (u : Station) (sender : Address) (senderHop : Nat) (i : InstanceId) : Prop where
  hop : u.hop = some (min (senderHop + 1) maxHop)
  dodag : ∃ d, u.node.dodags.find? i = some d ∧ d.preferred = some sender ∧
    d.parents = (∅ : Table Address Watch).insert sender {} ∧ d.heard = 0
  report : u.node.alarms.isArmed (.report i) = true

/-- The requests that follow a granted one to join are granted. -/
theorem joinThrough_granted (sender : Address) (senderHop : Nat) {out : Outcome (Node Generator)}
    (h : t.node.outside .simulated i params = none)
    (hjoin : Node.join .simulated (t.setClock now).node i params now = .ok out) :
    ∃ u, t.joinThrough sender senderHop i params now = .ok (.granted u) ∧
      u.Entered sender senderHop i := by
  obtain ⟨hgranted, d, hd, hpref, hparents, hheard⟩ :=
    Node.join_entered (n := (t.setClock now).node) h hjoin
  have hjoined : t.perform (.join i params) now = .ok (.granted { t with node := out.state }) := by
    rw [perform_of_ok (o := .join i params) hjoin, Outcome.map, hgranted]
    rfl
  -- The sender is the first candidate parent, and nothing stands in the way of preferring it.
  let d₂ : Dodag := { d with parents := (∅ : Table Address Watch).insert sender {} }
  let n₂ := Node.putDodag { out.state with clock := now } i d₂
  let u₂ : Station := { t with node := n₂, hop := some (min (senderHop + 1) maxHop) }
  have hregistered : { t with node := out.state, hop := some (min (senderHop + 1) maxHop) }.perform
      (.addParent i sender) now = .ok (.granted u₂) :=
    perform_of_granted (congrArg Except.ok (Node.addParent_entered hd hparents (by decide)))
  have hd₂ : n₂.dodags.find? i = some d₂ := Node.find?_putDodag_self
  let d₃ : Dodag := { d₂ with preferred := some sender }
  let n₃ := n₂.putDodag i d₃
  have hpreferred : u₂.perform (.command (.setPreferred i (some sender))) now =
      .ok (.granted { u₂ with node := n₃ }) :=
    perform_of_granted (congrArg Except.ok (Node.setPreferred_entered
      (n := (u₂.setClock now).node) hd₂ hpref (by simp [d₂])))
  have hd₃ : n₃.dodags.find? i = some d₃ := Node.find?_putDodag_self
  obtain ⟨out₄, hout₄⟩ :
      (Node.scheduleDao .simulated ({ u₂ with node := n₃ }.setClock now).node i now).Returns :=
    Node.scheduleDao_returns (by decide)
  obtain ⟨hgranted₄, hdodags₄, hreport⟩ :=
    Node.scheduleDao_pending (Table.contains_of_find? hd₃) hout₄
  refine ⟨{ u₂ with node := out₄.state }, ?_, rfl, ⟨d₃, ?_, rfl, rfl, hheard⟩, hreport⟩
  · refine Checked.bind_eq_ok_iff.2 ⟨_, hjoined, Checked.bind_eq_ok_iff.2 ⟨_, hregistered,
      Checked.bind_eq_ok_iff.2 ⟨_, hpreferred, ?_⟩⟩⟩
    have hreported := perform_of_ok (o := .command (.scheduleDao i)) hout₄
    rwa [Outcome.map, hgranted₄] at hreported
  · rw [hdodags₄]
    exact hd₃

theorem considerSender_of_outside (sender : Address) (senderHop : Nat) (params : TrickleParams)
    (now : Instant) (hout : t.isJoined i = false) :
    t.considerSender sender senderHop i params now =
      t.joinThrough sender senderHop i params now := by
  rw [considerSender, hout]
  rfl

/-- The station takes the sender as one more candidate parent: it belongs to the instance, the
sender is closer to the root and no candidate yet, and there is room. -/
def Enlists (t : Station) (sender : Address) (senderHop : Nat) (i : InstanceId) : Prop :=
  ∃ hop d, t.hop = some hop ∧ senderHop < hop ∧ t.node.dodags.find? i = some d ∧
    d.parents.contains sender = false ∧ d.parents.size < Platform.simulated.maxParents

/-- A station that has joined is never refused a backup; it takes one, or stays as it is. -/
theorem addBackup_eq (sender : Address) (now : Instant) (hd : t.node.dodags.find? i = some d) :
    t.addBackup sender i now = .ok (.granted (t.setClock now)) ∧
        (d.parents.contains sender = true ∨ Platform.simulated.maxParents ≤ d.parents.size) ∨
      t.addBackup sender i now = .ok (.granted { t with
          node := (t.setClock now).node.putDodag i
            { d with parents := d.parents.insert sender {} } }) ∧
        d.parents.contains sender = false ∧ d.parents.size < Platform.simulated.maxParents := by
  have hd' : (t.setClock now).node.dodags.find? i = some d := hd
  have hperform : t.perform (.addParent i sender) now =
      .ok ((Node.addParent .simulated (t.setClock now).node i sender).map
        fun node => { t with node }) := perform_of_ok rfl
  rw [addBackup, hperform]
  cases hknown : d.parents.contains sender with
  | true =>
    left
    simp only [Node.addParent, hd', hknown]
    exact ⟨rfl, .inl trivial⟩
  | false =>
    by_cases hfull : Platform.simulated.maxParents ≤ d.parents.size
    · left
      simp only [Node.addParent, hd', hknown, hfull]
      exact ⟨rfl, .inr trivial⟩
    · right
      simp only [Node.addParent, hd', hknown, hfull]
      exact ⟨rfl, trivial, Nat.not_le.1 hfull⟩

/-- A station that has joined is granted to consider a sender, and takes it if it enlists it. -/
theorem considerSender_known (sender : Address) (senderHop : Nat) (params : TrickleParams)
    (now : Instant) (hd : t.node.dodags.find? i = some d) :
    (t.setClock now).considerSender sender senderHop i params now =
      .ok (.granted (t.setClock now)) ∧
        ¬t.Enlists sender senderHop i ∨
      (t.setClock now).considerSender sender senderHop i params now = .ok (.granted { t with
          node := (t.setClock now).node.putDodag i
            { d with parents := d.parents.insert sender {} } }) ∧
        t.Enlists sender senderHop i := by
  have hjoined : (t.setClock now).isJoined i = true := Table.contains_of_find? hd
  simp only [considerSender, hjoined, Bool.not_true, Bool.false_eq_true, if_false]
  split
  · rename_i hcloser
    obtain ⟨hop, hhop, hlt⟩ := (Option.any_eq_true _ _).1 hcloser
    rcases addBackup_eq (t := t.setClock now) sender now hd with
      ⟨hsame, hnot⟩ | ⟨htaken, hnew, hroom⟩
    · refine .inl ⟨hsame, ?_⟩
      rintro ⟨-, d', -, -, hd', hnew, hroom⟩
      obtain rfl := Option.some.inj (hd.symm.trans hd')
      rcases hnot with hknown | hfull
      · rw [hnew] at hknown
        cases hknown
      · exact Nat.not_le.2 hroom hfull
    · exact .inr ⟨htaken, hop, d, hhop, of_decide_eq_true hlt, hd, hnew, hroom⟩
  · rename_i hnot
    refine .inl ⟨rfl, ?_⟩
    rintro ⟨hop, -, hhop, hlt, -⟩
    exact hnot ((Option.any_eq_true _ _).2 ⟨hop, hhop, decide_eq_true hlt⟩)

/-! ### The whole call -/

/-- A station that is not refused to consider the sender counts the advertisement and hears it. -/
theorem heardDio_of_granted
    (hu : (t.setClock now).considerSender sender senderHop i params now = .ok (.granted u))
    (hd : u.node.dodags.find? i = some d) :
    t.heardDio sender senderHop i l params now =
      (Node.dioReceived .simulated ((u.setClock now).node.putDodag i d.hear) i sender l now).map
        fun out => out.map fun node => { u with node } := by
  have hconsistent : u.perform (.command (.dioConsistent i)) now =
      .ok (.granted { u with node := (u.setClock now).node.putDodag i d.hear }) := by
    have hd' : (u.setClock now).node.dodags.find? i = some d := hd
    refine perform_of_granted ?_
    simp only [Node.perform, Node.handleCommand, Node.dioConsistent, hd']
  rw [heardDio, Checked.bind_of_ok hu]
  exact (Checked.bind_of_ok hconsistent).trans rfl

/-- What can overflow then is the counter of samples. -/
theorem heardDio_eq_error_iff_of_granted
    (hu : (t.setClock now).considerSender sender senderHop i params now = .ok (.granted u))
    (hd : u.node.dodags.find? i = some d) :
    t.heardDio sender senderHop i l params now = .error f ↔
      f = .addOverflow ∧ u.node.Overdue i sender now ∧ ¬u.node.Spare .latencySamples := by
  have hoverdue : ((u.setClock now).node.putDodag i d.hear).Overdue i sender now ↔
      u.node.Overdue i sender now :=
    Node.overdue_congr (Node.track_putDodag_of_same (n := (u.setClock now).node) hd rfl rfl)
  have hspare : ((u.setClock now).node.putDodag i d.hear).Spare .latencySamples ↔
      u.node.Spare .latencySamples := Iff.rfl
  rw [heardDio_of_granted hu hd, ← hoverdue, ← hspare, ← Node.dioReceived_eq_error_iff (l := l)]
  cases Node.dioReceived .simulated ((u.setClock now).node.putDodag i d.hear) i sender l now with
  | error f' => simp [Except.map]
  | ok out => simp [Except.map]

/-- Nothing is refused then, the advertisement is counted, and the parents stay. -/
theorem heardDio_eq_ok_of_granted {out : Outcome Station}
    (hu : (t.setClock now).considerSender sender senderHop i params now = .ok (.granted u))
    (hd : u.node.dodags.find? i = some d)
    (hregistered : d.preferred = some sender → d.parents.contains sender = true)
    (h : t.heardDio sender senderHop i l params now = .ok out) :
    out.refusal = none ∧ out.state.hop = u.hop ∧
      out.state.node.heard i = min (u.node.heard i + 1) 255 ∧
      out.state.node.standing? i = u.node.standing? i ∧
      out.state.node.alarms.isArmed (.report i) = u.node.alarms.isArmed (.report i) ∧
      ∃ on, Node.dioReceived .simulated ((u.setClock now).node.putDodag i d.hear) i sender l now =
        .ok on ∧ out.state.node = on.state := by
  rw [heardDio_of_granted hu hd] at h
  cases hon :
    Node.dioReceived .simulated ((u.setClock now).node.putDodag i d.hear) i sender l now with
  | error f =>
    rw [hon] at h
    cases h
  | ok on =>
    rw [hon] at h
    obtain rfl := Except.ok.inj h
    obtain ⟨hrefusal, hheard, hstanding, hreport⟩ :=
      Node.dioReceived_heard (n := (u.setClock now).node) hd hregistered hon
    exact ⟨hrefusal, rfl, hheard, hstanding, hreport, on, rfl, rfl⟩

/-- What an advertisement leaves behind that is not refused. -/
structure Admits (t : Station) (sender : Address) (senderHop : Nat) (i : InstanceId) (u : Station) :
    Prop where
  joined : u.isJoined i = true
  /-- The advertisement counts as one more, up to the largest byte. -/
  heard : u.node.heard i = min (t.node.heard i + 1) 255
  /-- A station that was outside has joined through the sender.  That is its only parent, whose next
  advertisement it awaits, and a report to it is pending. -/
  entered : t.isJoined i = false →
    u.hop = some (min (senderHop + 1) maxHop) ∧
    u.node.standing? i = some ⟨some sender, [sender]⟩ ∧
    (∃ w, u.node.watch? i sender = some w ∧ w.stage = .awaitingWindow) ∧
    u.node.alarms.isArmed (.watch i sender) = true ∧
    u.node.alarms.isArmed (.report i) = true
  /-- A station that had joined stays where it is, except that it may enlist the sender. -/
  stayed : ∀ st, t.node.standing? i = some st →
    u.hop = t.hop ∧ ∃ parents, u.node.standing? i = some ⟨st.preferred, parents⟩ ∧
      ∀ a, a ∈ parents ↔ a ∈ st.parents ∨ a = sender ∧ t.Enlists sender senderHop i
  /-- No other instance has anything to do with it. -/
  others : ∀ j, j ≠ i → u.node.dodags.find? j = t.node.dodags.find? j

/-- A station that is turned away stays outside, and nothing has happened to it but the time. -/
theorem heardDio_of_outside {r : Refusal} (hout : t.isJoined i = false)
    (hr : t.node.outside .simulated i params = some r) :
    t.heardDio sender senderHop i l params now = .ok (.refused r (t.setClock now)) := by
  have hrefused :=
    (considerSender_of_outside (t := t.setClock now) sender senderHop params now hout).trans
    (joinThrough_refused sender senderHop now hr)
  rw [heardDio, Checked.bind_of_ok hrefused]
  rfl

/-- Nothing is expected yet of the sender through which the station has joined. -/
theorem Entered.not_overdue (hu : u.Entered sender senderHop i) : ¬u.node.Overdue i sender now := by
  obtain ⟨d, hd, -, hparents, -⟩ := hu.dodag
  rintro ⟨-, w, hw, hstage, -⟩
  rw [Node.watch?, hd, Option.bind_some, hparents, Table.find?_insert, if_pos rfl] at hw
  obtain rfl := Option.some.inj hw
  cases hstage

/-- The advertisement through which a station joins is the first one that it counts, and sets the
alarm that watches the sender. -/
theorem Entered.admits {out : Outcome Station} (hentered : u.Entered sender senderHop i)
    (hout : t.isJoined i = false)
    (hu : (t.setClock now).considerSender sender senderHop i params now = .ok (.granted u))
    (h : t.heardDio sender senderHop i l params now = .ok out) :
    out.refusal = none ∧ t.Admits sender senderHop i out.state := by
  have hnothing : t.node.dodags.find? i = none := Table.find?_eq_none_iff.2 hout
  obtain ⟨d, hd, hpref, hparents, hheard⟩ := hentered.dodag
  have hw : d.parents.find? sender = some {} := by
    rw [hparents, Table.find?_insert, if_pos rfl]
  obtain ⟨hrefusal, hhop, hcount, hstanding, hreport, on, hon, hnode⟩ :=
    heardDio_eq_ok_of_granted hu hd (fun _ => Table.contains_of_find? hw) h
  obtain ⟨hwatch, harmed⟩ :=
    Node.dioReceived_first (d := d.hear) Node.find?_putDodag_self hpref hw rfl hon
  rw [← hnode] at hwatch harmed
  have hstands : out.state.node.standing? i = some ⟨some sender, [sender]⟩ := by
    rw [hstanding]
    refine Node.standing?_eq_some_iff.2 ⟨d, hd, hpref, ?_⟩
    rw [hparents]
    rfl
  refine ⟨hrefusal, ?_, ?_, ?_, ?_, ?_⟩
  · exact Node.contains_of_standing? hstands
  · rw [hcount, Node.heard_of_find? hd, hheard, Node.heard, hnothing]
    rfl
  · intro _
    exact ⟨hhop.trans hentered.hop, hstands, hwatch, harmed, hreport.trans hentered.report⟩
  · intro st hst
    rw [Node.standing?, hnothing] at hst
    cases hst
  · exact fun j hj => (asks_heardDio h).find?_eq hj

/-- A station that may join does, unless the counter of resets is full. -/
theorem heardDio_entered (hout : t.isJoined i = false)
    (hreason : t.node.outside .simulated i params = none) :
    (∀ out, t.heardDio sender senderHop i l params now = .ok out →
      out.refusal = none ∧ t.Admits sender senderHop i out.state) ∧
    ∀ f, t.heardDio sender senderHop i l params now = .error f ↔
      f = .addOverflow ∧ ¬t.node.Spare .dioResets := by
  have hconsider :=
    considerSender_of_outside (t := t.setClock now) sender senderHop params now hout
  have hfault (f : Fault) :
      Node.join .simulated (t.setClock now).node i params now = .error f ↔
        f = .addOverflow ∧ ¬t.node.Spare .dioResets :=
    Node.join_eq_error_iff hreason
  cases hjoin : Node.join .simulated (t.setClock now).node i params now with
  | error f =>
    have hstop : t.heardDio sender senderHop i l params now = .error f := by
      rw [heardDio, hconsider]
      refine Checked.bind_eq_error_iff.2 (.inl (Checked.bind_eq_error_iff.2 (.inl ?_)))
      exact perform_of_error (t := t.setClock now) (o := .join i params) hjoin
    obtain ⟨rfl, hfull⟩ := (hfault f).1 hjoin
    refine ⟨fun out h => ?_, fun f => ?_⟩
    · rw [hstop] at h
      cases h
    · rw [hstop, Except.error.injEq]
      exact ⟨fun h => ⟨h.symm, hfull⟩, fun h => h.1.symm⟩
  | ok on =>
    obtain ⟨u, hu, hentered⟩ :=
      joinThrough_granted (t := t.setClock now) sender senderHop hreason hjoin
    rw [← hconsider] at hu
    obtain ⟨d, hd, -⟩ := hentered.dodag
    refine ⟨fun out h => hentered.admits hout hu h, fun f => ?_⟩
    rw [heardDio_eq_error_iff_of_granted hu hd]
    constructor
    · rintro ⟨-, hoverdue, -⟩
      exact absurd hoverdue hentered.not_overdue
    · rintro ⟨-, hfull⟩
      have hstops := (hfault .addOverflow).2 ⟨rfl, hfull⟩
      rw [hjoin] at hstops
      cases hstops

/-- What a station that has joined knows of the instance once it has considered the sender. -/
structure Considers (t : Station) (sender : Address) (senderHop : Nat) (i : InstanceId)
    (now : Instant) (d : Dodag) (u : Station) (d' : Dodag) : Prop where
  hop : u.hop = t.hop
  find : u.node.dodags.find? i = some d'
  heard : d'.heard = d.heard
  preferred : d'.preferred = d.preferred
  parents : ∀ a, a ∈ d'.parents.keys ↔
    a ∈ d.parents.keys ∨ a = sender ∧ t.Enlists sender senderHop i
  overdue : u.node.Overdue i sender now ↔ t.node.Overdue i sender now
  spare : u.node.Spare .latencySamples ↔ t.node.Spare .latencySamples

/-- Nothing stands in the way of considering a sender: a full table is no reason to refuse it. -/
theorem considers_known (sender : Address) (senderHop : Nat) (params : TrickleParams)
    (now : Instant) (ht : t.node.Reachable .simulated) (hd : t.node.dodags.find? i = some d) :
    ∃ u d', (t.setClock now).considerSender sender senderHop i params now = .ok (.granted u) ∧
      t.Considers sender senderHop i now d u d' := by
  rcases considerSender_known sender senderHop params now hd with ⟨hu, hnot⟩ | ⟨hu, henlists⟩
  · exact ⟨t.setClock now, d, hu, rfl, hd, rfl, rfl, fun a => (or_iff_left fun h => hnot h.2).symm,
      Iff.rfl, Iff.rfl⟩
  · refine ⟨_, { d with parents := d.parents.insert sender {} }, hu, rfl, Node.find?_putDodag_self,
      rfl, rfl, fun a => ?_, ?_, Iff.rfl⟩
    · simp [Table.mem_keys_iff, henlists, or_comm]
    -- A neighbour that is no candidate yet is not the preferred parent.
    · obtain ⟨hop, d', -, -, hd', hnew, -⟩ := henlists
      obtain rfl := Option.some.inj (hd.symm.trans hd')
      have hpref : d.preferred ≠ some sender := by
        intro hpref
        rw [ht.registered hd hpref] at hnew
        cases hnew
      rw [Node.Overdue, Node.Overdue, Node.preferred?_of_find? hd,
        Node.preferred?_of_find? Node.find?_putDodag_self]
      exact iff_of_false (fun h => hpref h.1) fun h => hpref h.1

/-- A station that has joined is not refused anything, and only the counter of samples may be
full. -/
theorem heardDio_stayed (ht : t.node.Reachable .simulated) (hd : t.node.dodags.find? i = some d) :
    (∀ out, t.heardDio sender senderHop i l params now = .ok out →
      out.refusal = none ∧ t.Admits sender senderHop i out.state) ∧
    ∀ f, t.heardDio sender senderHop i l params now = .error f ↔
      f = .addOverflow ∧ t.node.Overdue i sender now ∧ ¬t.node.Spare .latencySamples := by
  obtain ⟨u, d', hu, hconsiders⟩ := considers_known sender senderHop params now ht hd
  have hregistered (hpref : d'.preferred = some sender) : d'.parents.contains sender = true := by
    rw [hconsiders.preferred] at hpref
    rw [← Table.mem_keys_iff, hconsiders.parents]
    exact .inl (Table.mem_keys_iff.2 (ht.registered hd hpref))
  refine ⟨fun out h => ?_, fun f => ?_⟩
  · obtain ⟨hrefusal, hhop, hcount, hstanding, -⟩ :=
      heardDio_eq_ok_of_granted hu hconsiders.find hregistered h
    have hstands : out.state.node.standing? i = some ⟨d.preferred, d'.parents.keys⟩ := by
      rw [hstanding]
      exact Node.standing?_eq_some_iff.2 ⟨d', hconsiders.find, hconsiders.preferred, rfl⟩
    refine ⟨hrefusal, ?_, ?_, ?_, ?_, ?_⟩
    · exact Node.contains_of_standing? hstands
    · rw [hcount, Node.heard_of_find? hconsiders.find, Node.heard_of_find? hd, hconsiders.heard]
    · intro hout
      rw [isJoined, Table.contains_of_find? hd] at hout
      cases hout
    · intro st hst
      obtain ⟨e, he, hpref, hkeys⟩ := Node.standing?_eq_some_iff.1 hst
      obtain rfl := Option.some.inj (hd.symm.trans he)
      refine ⟨hhop.trans hconsiders.hop, d'.parents.keys, ?_, fun a => ?_⟩
      · rw [hstands, hpref]
      · rw [hconsiders.parents, hkeys]
    · exact fun j hj => (asks_heardDio h).find?_eq hj
  · rw [heardDio_eq_error_iff_of_granted hu hconsiders.find, hconsiders.overdue, hconsiders.spare]

/-- A station is turned away from an instance that it has not joined if the parameters are not valid
or it belongs to as many instances as it can. -/
theorem outside_isSome_iff (ht : t.node.Reachable .simulated) (hout : t.isJoined i = false) :
    (t.node.outside .simulated i params).isSome = true ↔
      ¬params.Valid ∨ t.node.dodags.size = Platform.simulated.maxInstances := by
  have hle := ht.orderly.instances
  have hnew : ¬t.node.dodags.contains i = true := by simpa [isJoined] using hout
  rw [Node.outside, if_neg hnew]
  by_cases hvalid : params.Valid
  · by_cases hfull : Platform.simulated.maxInstances ≤ t.node.dodags.size
    · simp [hvalid, Nat.le_antisymm hle hfull]
    · simp only [hvalid, hfull, not_true_eq_false, if_false, false_or]
      exact iff_of_false Bool.false_ne_true fun h => hfull (Nat.le_of_eq h.symm)
  · simp [hvalid]

/-- A call that is refused found the station outside, and to join would have been refused the
same. -/
theorem heardDio_refused_iff (ht : t.node.Reachable .simulated) {out : Outcome Station}
    {r : Refusal} (hr : out.refusal = some r) :
    t.heardDio sender senderHop i l params now = .ok out ↔
      t.isJoined i = false ∧ t.node.outside .simulated i params = some r ∧
        out.state = t.setClock now := by
  constructor
  · intro h
    cases hd : t.node.dodags.find? i with
    | some d =>
      have hgranted := ((heardDio_stayed ht hd).1 out h).1
      rw [hr] at hgranted
      cases hgranted
    | none =>
      have hout : t.isJoined i = false := Table.find?_eq_none_iff.1 hd
      cases hreason : t.node.outside .simulated i params with
      | none =>
        have hgranted := ((heardDio_entered hout hreason).1 out h).1
        rw [hr] at hgranted
        cases hgranted
      | some r' =>
        rw [heardDio_of_outside hout hreason] at h
        obtain rfl := Except.ok.inj h
        exact ⟨hout, hr, rfl⟩
  · rintro ⟨hout, hreason, hstate⟩
    rw [heardDio_of_outside hout hreason, Outcome.refused, ← hr, ← hstate]

/-- What overflows when the station hears the sender: it joins, and the counter of resets is full,
or the sender is its preferred parent and late, and the counter of samples is full. -/
def Overflows (t : Station) (sender : Address) (i : InstanceId) (params : TrickleParams)
    (now : Instant) : Prop :=
  t.isJoined i = false ∧ t.node.outside .simulated i params = none ∧ ¬t.node.Spare .dioResets ∨
    t.node.Overdue i sender now ∧ ¬t.node.Spare .latencySamples

theorem heardDio_eq_error_iff (ht : t.node.Reachable .simulated) :
    t.heardDio sender senderHop i l params now = .error f ↔
      f = .addOverflow ∧ t.Overflows sender i params now := by
  cases hd : t.node.dodags.find? i with
  | some d =>
    have hin : ¬t.isJoined i = false := by simp [isJoined, Table.contains_of_find? hd]
    rw [(heardDio_stayed ht hd).2, Overflows, or_iff_right fun h => hin h.1]
  | none =>
    have hout : t.isJoined i = false := Table.find?_eq_none_iff.1 hd
    have hnever : ¬t.node.Overdue i sender now := by
      rintro ⟨-, w, hw, -⟩
      rw [Node.watch?, hd] at hw
      cases hw
    rw [Overflows, or_iff_left fun h => hnever h.1]
    cases hreason : t.node.outside .simulated i params with
    | none =>
      rw [(heardDio_entered hout hreason).2]
      simp [hout]
    | some r =>
      rw [heardDio_of_outside hout hreason]
      simp

/-- Whoever is heard by a station that calls lead to, and whenever:

* The call is refused exactly if the station has not joined the instance and is refused to join it,
  for the same reason, and then nothing but the clock has changed.  A station is refused to join for
  parameters that are not valid, or if it belongs to four instances.
* If the call is not refused, the station belongs to the instance and has counted the advertisement.
  It has joined through the sender, its only parent, or it stands where it stood and may have
  enlisted the sender.
* A fault is an overflow: of the counter of resets when the station joins, or of the counter of
  samples when its preferred parent is late.  Nothing else stops the call.
* With a full table of parents the advertisement of another neighbour than the preferred parent is
  counted, and that is all. -/
theorem advertisements_are_all_or_nothing (ht : t.Reachable) (sender : Address) (senderHop : Nat)
    (i : InstanceId) (l : Lookahead) (params : TrickleParams) (now : Instant) :
    (∀ out r, out.refusal = some r →
      (t.heardDio sender senderHop i l params now = .ok out ↔ t.isJoined i = false ∧
        t.node.perform .simulated (.join i params) now = .ok (.refused r t.node) ∧
        out.state = t.setClock now)) ∧
    (t.isJoined i = false →
      ((∃ r, t.node.perform .simulated (.join i params) now = .ok (.refused r t.node)) ↔
        ¬params.Valid ∨ t.node.dodags.size = Platform.simulated.maxInstances)) ∧
    (∀ out, t.heardDio sender senderHop i l params now = .ok out → out.refusal = none →
      t.Admits sender senderHop i out.state) ∧
    (∀ f, t.heardDio sender senderHop i l params now = .error f ↔
      f = .addOverflow ∧ t.Overflows sender i params now) ∧
    ∀ d, t.node.dodags.find? i = some d → d.parents.size = Platform.simulated.maxParents →
      d.preferred ≠ some sender →
      t.heardDio sender senderHop i l params now =
        .ok (.granted { t with node := (t.setClock now).node.putDodag i d.hear }) := by
  have hn := ht.node
  have hjoin (r : Refusal) :
      t.node.perform .simulated (.join i params) now = .ok (.refused r t.node) ↔
        t.node.outside .simulated i params = some r := by
    have hjudged : t.node.Judged (Node.join .simulated t.node i params now) _ := Node.judged_join
    constructor
    · intro h
      exact (hjudged.refusal_eq h).1.symm
    · intro hr
      rw [hr] at hjudged
      exact hjudged
  refine ⟨fun out r hr => ?_, fun hout => ?_, fun out h hgranted => ?_,
    fun f => heardDio_eq_error_iff hn, fun d hd hfull hpref => ?_⟩
  · rw [hjoin, heardDio_refused_iff hn hr]
  · simp only [hjoin]
    rw [← outside_isSome_iff hn hout, Option.isSome_iff_exists]
  · cases hd : t.node.dodags.find? i with
    | some d => exact ((heardDio_stayed hn hd).1 out h).2
    | none =>
      have hout : t.isJoined i = false := Table.find?_eq_none_iff.1 hd
      cases hreason : t.node.outside .simulated i params with
      | none => exact ((heardDio_entered hout hreason).1 out h).2
      | some r =>
        rw [heardDio_of_outside hout hreason] at h
        obtain rfl := Except.ok.inj h
        cases hgranted
  · rcases considerSender_known sender senderHop params now hd with
      ⟨hu, -⟩ | ⟨-, -, d', -, -, hd', -, hroom⟩
    · rw [heardDio_of_granted hu hd,
        Node.dioReceived_of_ne (d := d.hear) Node.find?_putDodag_self hpref]
      rfl
    · obtain rfl := Option.some.inj (hd.symm.trans hd')
      exact absurd hfull (Nat.ne_of_lt hroom)

/-- Hears advertisements of instances from senders at some distance from the root. -/
def hearAll (t : Station) (heard : List (Address × Nat × InstanceId)) : Checked Station :=
  heard.foldlM (fun t (sender, senderHop, i) =>
    return (← t.heardDio sender senderHop i {} {} .zero).state) t

/-- Four instances, and in the first of them as many senders as there is room for. -/
def crowd : List (Address × Nat × InstanceId) :=
  [1, 2, 3, 4].map (fun i => (.linkLocal 0, 1, i)) ++
    (List.range 15).map fun k => (.linkLocal (UInt64.ofNat (k + 1)), 0, 1)

theorem Reachable.hearAll {heard : List (Address × Nat × InstanceId)} (ht : t.Reachable)
    (h : t.hearAll heard = .ok t') : t'.Reachable := by
  refine Checked.foldlM_rel (R := fun u v => u.Reachable → v.Reachable) (fun _ => id)
    (fun _ _ _ h h' => h' ∘ h) (fun x _ u v huv hu => ?_) h ht
  obtain ⟨out, hout, huv⟩ := Checked.bind_eq_ok_iff.1 huv
  obtain rfl := Except.ok.inj huv
  exact hu.heardDio hout

/-- A crowded station turns another instance away and hears another sender all the same, without
taking it as a parent; and one that was just switched on joins. -/
theorem crowded_station_hears_on :
    (∃ u, (Station.new (.linkLocal 20) 7 .zero).heardDio (.linkLocal 0) 1 1 {} {} .zero =
        .ok (.granted u) ∧ u.hop = some 2 ∧
      (Station.new (.linkLocal 20) 7 .zero).Admits (.linkLocal 0) 1 1 u) ∧
    ∃ t d, (Station.new (.linkLocal 20) 7 .zero).hearAll crowd = .ok t ∧
      t.node.dodags.find? 1 = some d ∧ d.parents.size = 16 ∧
      t.heardDio (.linkLocal 0) 0 5 {} {} (.ofTicks 1) =
        .ok (.refused .tooManyInstances (t.setClock (.ofTicks 1))) ∧
      t.heardDio (.linkLocal 16) 0 1 {} {} (.ofTicks 1) = .ok (.granted { t with
        node := (t.setClock (.ofTicks 1)).node.putDodag 1 d.hear }) := by
  have hnew : (Station.new (.linkLocal 20) 7 .zero).Reachable := .new _ _ _
  constructor
  · obtain ⟨u, hu, hhop⟩ :
        ∃ u, (Station.new (.linkLocal 20) 7 .zero).heardDio (.linkLocal 0) 1 1 {} {} .zero =
          .ok (.granted u) ∧ u.hop = some 2 := ⟨_, rfl, rfl⟩
    obtain ⟨-, -, hadmits, -⟩ :=
      advertisements_are_all_or_nothing hnew (.linkLocal 0) 1 1 {} {} .zero
    exact ⟨u, hu, hhop, hadmits _ hu rfl⟩
  · obtain ⟨t, d, ht, hd, hfull, hpref, hout, hjoin⟩ :
        ∃ t d, (Station.new (.linkLocal 20) 7 .zero).hearAll crowd = .ok t ∧
          t.node.dodags.find? 1 = some d ∧ d.parents.size = 16 ∧
          d.preferred = some (.linkLocal 0) ∧ t.isJoined 5 = false ∧
          t.node.perform .simulated (.join 5 {}) (.ofTicks 1) =
            .ok (.refused .tooManyInstances t.node) :=
      ⟨_, _, rfl, rfl, rfl, rfl, rfl, rfl⟩
    have hreach := hnew.hearAll ht
    obtain ⟨hrefused, -⟩ :=
      advertisements_are_all_or_nothing hreach (.linkLocal 0) 0 5 {} {} (.ofTicks 1)
    obtain ⟨-, -, -, -, hheard⟩ :=
      advertisements_are_all_or_nothing hreach (.linkLocal 16) 0 1 {} {} (.ofTicks 1)
    refine ⟨t, d, ht, hd, hfull, ?_, hheard d hd hfull ?_⟩
    · exact (hrefused (.refused .tooManyInstances (t.setClock (.ofTicks 1)))
        .tooManyInstances rfl).2 ⟨hout, hjoin, rfl⟩
    · rw [hpref]
      decide

end Station

end TrickleNet

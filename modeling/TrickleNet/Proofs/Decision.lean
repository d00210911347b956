import Mathlib
import TrickleNet.Proofs.Trickle
/-!
# One decision for each interval

An interval begins, takes its decision and ends.  A reset or a leave may cut it short, and if that
happens in its listen phase no decision is taken (`Moment.cuts`).  So the intervals of an instance
are accounted for by the decisions taken and the resets that cut a listen phase (`Trail.balanced`).

A decision depends on how many consistent advertisements were heard since its interval began
(`Trail.decisions`), also those heard while it was put off, and on none before.  It hands an
advertisement to the outbox, which loses it when too many messages wait (`Moment.Valid.decision`).
-/

namespace TrickleNet.Node

variable {ρ : Type} {p : Platform} {n k : Node ρ} {x : Moment ρ} {i : InstanceId} {t : Timer}
  {ms mid : List (Moment ρ)} {d : Dodag}

/-- An interval is cut short in its listen phase. -/
def Moment.cuts (x : Moment ρ) (i : InstanceId) : Bool :=
  x.before.phase? i = some .listen && (x.resets i || x.leaves i)

/-- A reset cuts an interval short in its listen phase. -/
def Moment.resetsListening (x : Moment ρ) (i : InstanceId) : Bool :=
  x.before.phase? i = some .listen && x.resets i

variable [RandomSource ρ]

/-- An interval begins in its listen phase, and nothing was heard in it. -/
theorem Moment.Valid.begun (h : x.Valid p) (hbegins : x.begins i = true) :
    ∃ t, x.after.timer? i = some t ∧ t.state.phase = .listen ∧ t.state.heard = 0 := by
  have hbegun {d d' : Dodag} {split : Split} {source source' : ρ}
      (h : d.begin p source = .ok (split, d', source')) : d'.phase = .listen ∧ d'.heard = 0 := by
    obtain ⟨-, -, -, -, -, -, rfl⟩ := Dodag.begin_eq_ok h
    exact ⟨rfl, rfl⟩
  cases ht : x.before.timer? i with
  | none =>
    have hafter : x.after.phase? i = some .listen := by
      simp only [Moment.begins, Bool.and_eq_true, decide_eq_true_eq] at hbegins
      exact hbegins.1
    rw [phase?_eq, Option.map_eq_some_iff] at hafter
    obtain ⟨t', ht', -⟩ := hafter
    obtain ⟨params, now, split, source, source', -, -, hbegin, -⟩ := h.joined ht ht'
    exact ⟨t', ht', hbegun hbegin⟩
  | some t =>
    cases h.course ht with
    | ended _ _ _ _ _ _ hbegin hafter => exact ⟨_, hafter, hbegun hbegin⟩
    | reset _ _ _ _ hbegin hafter => exact ⟨_, hafter, hbegun hbegin⟩
    | idle _ _ _ hnot | postponed _ _ _ hnot | decided _ _ _ _ hnot | left _ hnot =>
      rw [hbegins] at hnot
      cases hnot

/-! ## Inside an interval -/

/-- The decision of the interval was taken once if the listen phase is over, and not yet otherwise.
All that was heard since the interval began counts, up to what fits a byte. -/
structure Inside (i : InstanceId) (mid : List (Moment ρ)) (d : Dodag) : Prop where
  decisions : d.phase = .listen ∧ mid.countP (·.decides i) = 0 ∨
    d.phase = .jitter ∧ mid.countP (·.decides i) = 1
  heard : d.heard = min (mid.countP (·.hears i)) 255

omit [RandomSource ρ] in
theorem hears_eq_false {s : Signal} (hsignal : x.event.signal? i = some s) (hs : s ≠ .hear) :
    x.hears i = false := by
  rw [Moment.hears, hsignal]
  cases s <;> first | rfl | exact absurd rfl hs

omit [RandomSource ρ] in
/-- Where the timer neither decides nor begins an interval, it is as far as before. -/
theorem Inside.idle {d' : Dodag} (h : Inside i mid d) (hdecides : x.decides i = false)
    (hphase : d'.phase = d.phase)
    (hheard : d'.heard = min (d.heard + if x.hears i then 1 else 0) 255) :
    Inside i (mid ++ [x]) d' := by
  constructor
  · rw [hphase, List.countP_append, List.countP_singleton, hdecides]
    exact h.decisions
  · rw [hheard, h.heard, List.countP_append, List.countP_singleton]
    omega

/-- Every event within an interval is accounted for. -/
theorem Inside.snoc (h : Inside i mid t.state) (ht : x.before.timer? i = some t) (hx : x.Valid p)
    (hbegins : x.begins i = false) (hleaves : x.leaves i = false) :
    ∃ t', x.after.timer? i = some t' ∧ Inside i (mid ++ [x]) t'.state := by
  have hle : t.state.heard ≤ 255 := by
    rw [h.heard]
    omega
  cases hx.course ht with
  | idle _ _ _ _ hdecides hafter =>
    refine ⟨_, hafter, h.idle hdecides ?_ ?_⟩
    · cases x.hears i <;> rfl
    · cases x.hears i
      · exact (Nat.min_eq_left hle).symm
      · rfl
  | postponed hsignal _ _ _ hdecides hafter =>
    refine ⟨_, hafter, h.idle hdecides rfl ?_⟩
    rw [hears_eq_false hsignal (by simp)]
    exact (Nat.min_eq_left hle).symm
  | decided hsignal _ _ hphase _ hdecides hafter =>
    refine ⟨_, hafter, ⟨.inr ⟨rfl, ?_⟩, ?_⟩⟩
    · rcases h.decisions with ⟨-, hnone⟩ | ⟨hjitter, -⟩
      · rw [List.countP_append, List.countP_singleton, hdecides, hnone]
        rfl
      · rw [hphase] at hjitter
        cases hjitter
    · rw [List.countP_append, List.countP_singleton, hears_eq_false hsignal (by simp)]
      exact h.heard
  | ended _ _ _ _ hyes | reset _ _ hyes =>
    rw [hbegins] at hyes
    cases hyes
  | left hsignal =>
    rw [Moment.leaves, hsignal] at hleaves
    cases hleaves

/-- A record within one interval takes at most one decision. -/
theorem Trail.inside (h : Trail p n mid k) (ht : n.timer? i = some t)
    (hphase : t.state.phase = .listen) (hheard : t.state.heard = 0)
    (hmid : ∀ x ∈ mid, x.begins i = false ∧ x.leaves i = false) :
    ∃ t', k.timer? i = some t' ∧ Inside i mid t'.state := by
  refine Trail.timer_induction (motive := fun mid t => Inside i mid t.state) ?_ ?_ h ht hmid
  · exact ⟨.inl ⟨hphase, rfl⟩, hheard⟩
  · rintro mid x t hx ⟨hbegins, hleaves⟩ ht hinside
    exact hinside.snoc ht hx hbegins hleaves

/-- An instance that is joined is in an interval that has begun. -/
theorem Trail.exists_begins (h : Trail p n ms k) (hn : n.timer? i = none)
    (hk : k.timer? i = some t) :
    ∃ (pre : List (Moment ρ)) (b : Moment ρ) (mid : List (Moment ρ)), ms = pre ++ b :: mid ∧
      b.begins i = true ∧ ∀ y ∈ mid, y.begins i = false ∧ y.leaves i = false := by
  refine Trail.joined_induction ?_ ?_ h hn hk
  · intro ms x t hx ht ht'
    obtain ⟨-, -, -, -, -, -, -, -, -, -, hbegins⟩ := hx.joined ht ht'
    exact ⟨ms, x, [], rfl, hbegins, fun y hy => absurd hy List.not_mem_nil⟩
  · rintro ms x t t' hx ht ht' ⟨pre, b, mid, rfl, hb, hmid⟩
    by_cases hbegins : x.begins i = true
    · exact ⟨pre ++ b :: mid, x, [], rfl, hbegins, fun y hy => absurd hy List.not_mem_nil⟩
    refine ⟨pre, b, mid ++ [x], by simp, hb, fun y hy => ?_⟩
    rcases List.mem_append.1 hy with hy | hy
    · exact hmid y hy
    · obtain rfl := List.mem_singleton.1 hy
      exact ⟨Bool.eq_false_iff.2 hbegins, (hx.course ht).leaves_eq_false ht'⟩

/-! ## Accounts -/

/-- Every interval since the instance was joined is the current one, took its decision, or was cut
short in its listen phase by a reset. -/
def Balanced (i : InstanceId) (post : List (Moment ρ)) (d : Dodag) : Prop :=
  d.counts.intervals = d.counts.sent + d.counts.suppressed + (if d.phase = .listen then 1 else 0) +
    post.countP (·.resetsListening i)

/-- An instance that was just joined has begun one interval. -/
theorem balanced_new {params : TrickleParams} {split : Split} {source source' : ρ}
    (h : (Dodag.new params).restart.begin p source = .ok (split, d, source')) :
    Balanced i ([] : List (Moment ρ)) d := by
  obtain ⟨middle, next, -, -, -, -, rfl⟩ := Dodag.begin_eq_ok h
  rfl

theorem Balanced.snoc {t' : Timer} {post : List (Moment ρ)} (h : Balanced i post t.state)
    (ht : x.before.timer? i = some t) (hx : x.Valid p) (ht' : x.after.timer? i = some t') :
    Balanced i (post ++ [x]) t'.state := by
  have hbefore := phase?_of_timer? ht
  have hnot (hreset : x.resets i = false) : x.resetsListening i = false := by
    rw [Moment.resetsListening, hreset, Bool.and_false]
  have hring {due : Instant} (hsignal : x.event.signal? i = some (.ring due)) :
      x.resets i = false := by
    rw [Moment.resets, hsignal]
  unfold Balanced at h ⊢
  rw [List.countP_append, List.countP_singleton]
  cases hx.course ht with
  | idle _ hreset _ _ _ hafter =>
    obtain rfl := Option.some.inj (ht'.symm.trans hafter)
    rw [hnot hreset]
    cases x.hears i <;> exact h
  | postponed hsignal _ _ _ _ hafter =>
    obtain rfl := Option.some.inj (ht'.symm.trans hafter)
    rw [hnot (hring hsignal)]
    exact h
  | decided hsignal _ _ hphase _ _ hafter =>
    obtain rfl := Option.some.inj (ht'.symm.trans hafter)
    rw [hnot (hring hsignal)]
    simp only [hphase, if_true] at h
    simp only [Dodag.decided, reduceCtorEq, if_false]
    split <;> dsimp only <;> omega
  | ended hsignal _ _ hphase _ _ hbegin hafter =>
    obtain rfl := Option.some.inj (ht'.symm.trans hafter)
    obtain ⟨middle, next, -, -, -, -, rfl⟩ := Dodag.begin_eq_ok hbegin
    rw [hnot (hring hsignal)]
    simp only [hphase, if_false] at h
    rw [Dodag.grow_eq]
    simp only [if_true, Bool.false_eq_true, if_false]
    omega
  | reset _ hreset _ _ hbegin hafter =>
    obtain rfl := Option.some.inj (ht'.symm.trans hafter)
    obtain ⟨middle, next, -, -, -, -, rfl⟩ := Dodag.begin_eq_ok hbegin
    -- The interval that is cut short counts in its listen phase only.
    have hcut : x.resetsListening i = decide (t.state.phase = .listen) := by
      rw [Moment.resetsListening, hreset, hbefore]
      simp
    rw [hcut]
    simp only [Dodag.restart, if_true, decide_eq_true_eq]
    omega
  | left _ _ _ hafter =>
    rw [hafter] at ht'
    cases ht'

/-- Every instance that is joined has been joined once and not left since, and its intervals are
accounted for. -/
theorem Trail.balanced (h : Trail p n ms k) (hn : n.timer? i = none) (hk : k.timer? i = some t) :
    ∃ (pre : List (Moment ρ)) (b : Moment ρ) (post : List (Moment ρ)), ms = pre ++ b :: post ∧
      b.joins i = true ∧ (∀ y ∈ post, y.leaves i = false) ∧ Balanced i post t.state := by
  refine Trail.joined_induction ?_ ?_ h hn hk
  · intro ms x t hx ht ht'
    obtain ⟨params, now, split, source, source', -, -, hbegin, -, hjoins, -⟩ := hx.joined ht ht'
    exact ⟨ms, x, [], rfl, hjoins, fun y hy => absurd hy List.not_mem_nil, balanced_new hbegin⟩
  · rintro ms x t t' hx ht ht' ⟨pre, b, post, rfl, hb, hpost, hbalanced⟩
    refine ⟨pre, b, post ++ [x], by simp, hb, fun y hy => ?_, hbalanced.snoc ht hx ht'⟩
    rcases List.mem_append.1 hy with hy | hy
    · exact hpost y hy
    · obtain rfl := List.mem_singleton.1 hy
      exact (hx.course ht).leaves_eq_false ht'

/-! ## What a decision does -/

omit [RandomSource ρ] in
/-- An advertisement counts as sent and is handed to the outbox, which takes it unless too many
messages wait. -/
structure Advertises (n m : Node ρ) (i : InstanceId) (d d' : Dodag) : Prop where
  sent : d'.counts.sent = d.counts.sent + 1
  suppressed : d'.counts.suppressed = d.counts.suppressed
  outbox : m.outbox.toList =
    if n.outbox.hasRoom then n.outbox.toList ++ [.dio i d.lookahead] else n.outbox.toList
  dropped : m.counts.controlDropped = n.counts.controlDropped + if n.outbox.hasRoom then 0 else 1

omit [RandomSource ρ] in
/-- An advertisement counts as suppressed, and nothing is queued. -/
structure Suppresses (n m : Node ρ) (d d' : Dodag) : Prop where
  sent : d'.counts.sent = d.counts.sent
  suppressed : d'.counts.suppressed = d.counts.suppressed + 1
  outbox : m.outbox.toList = n.outbox.toList
  dropped : m.counts.controlDropped = n.counts.controlDropped

omit [RandomSource ρ] in
/-- A decision advertises exactly if too little was heard. -/
theorem takeDecision_hands {m : Node ρ} {now : Instant} (h : n.takeDecision i d now = .ok m) :
    ∃ d', m.dodags.find? i = some d' ∧
      ((d.heard < d.params.redundancy.toNat ∧ n.Advertises m i d d') ∨
        (d.params.redundancy.toNat ≤ d.heard ∧ n.Suppresses m d d')) := by
  rcases takeDecision_eq_ok h with ⟨hheard, -, k, hk, rfl⟩ | ⟨hheard, -, rfl⟩
  · rcases send_eq_ok hk with ⟨hroom, rfl⟩ | ⟨hroom, hk⟩
    · have hroom' : n.outbox.hasRoom = true := hroom
      refine ⟨_, Table.find?_insert.trans (if_pos rfl), .inl ⟨hheard, rfl, rfl, ?_, ?_⟩⟩
      · exact Mailbox.toList_offer n.outbox (.dio i d.lookahead)
      · rw [hroom']
        rfl
    · obtain ⟨-, rfl⟩ := count_eq_ok hk
      have hroom' : n.outbox.hasRoom = false := hroom
      refine ⟨_, Table.find?_insert.trans (if_pos rfl), .inl ⟨hheard, rfl, rfl, ?_, ?_⟩⟩
      · rw [hroom']
        rfl
      · rw [hroom']
        rfl
  · exact ⟨_, Table.find?_insert.trans (if_pos rfl), .inr ⟨hheard, rfl, rfl, rfl, rfl⟩⟩

theorem Moment.Valid.decision (h : x.Valid p) (hd : x.before.dodags.find? i = some d)
    (hdecides : x.decides i = true) :
    ∃ d', x.after.dodags.find? i = some d' ∧
      ((d.heard < d.params.redundancy.toNat ∧ x.before.Advertises x.after i d d') ∨
        (d.params.redundancy.toNat ≤ d.heard ∧ x.before.Suppresses x.after d d')) := by
  obtain ⟨due, hsignal, -, hready, hphase, -⟩ :=
    (h.course (timer?_of_find? hd)).of_decides hdecides
  have hevent := Event.eq_ring_of_signal? hsignal
  cases h with
  | request => cases hevent
  | settled => cases hevent
  | @ring n m now r alarms hring hm =>
    obtain rfl := Event.ring.inj hevent
    obtain ⟨-, -, rfl, -⟩ := AlarmTable.ring?_eq_some hring
    rcases advertiseRings_eq_ok hm with ⟨hnot, -⟩ | ⟨-, ⟨hnone, -⟩ | ⟨e, he, hcase⟩⟩
    · exact absurd (hready.symm.trans hnot) (by simp)
    · exact absurd (hd.symm.trans hnone) (by simp)
    · obtain rfl : d = e := Option.some.inj (hd.symm.trans he)
      rcases hcase with ⟨-, hdecision⟩ | ⟨hnot, -⟩
      · obtain ⟨d', hd', ⟨hfew, hsent⟩ | ⟨hmany, hsuppressed⟩⟩ := takeDecision_hands hdecision
        · exact ⟨d', hd', .inl ⟨hfew, hsent.sent, hsent.suppressed, hsent.outbox, hsent.dropped⟩⟩
        · exact ⟨d', hd', .inr ⟨hmany, hsuppressed.sent, hsuppressed.suppressed,
            hsuppressed.outbox, hsuppressed.dropped⟩⟩
      · exact absurd hphase hnot

/-! ## Runs -/

/-- What ends an interval tells whether its decision was taken. -/
theorem Inside.ended (h : Inside i mid t.state) (ht : x.before.timer? i = some t) (hx : x.Valid p)
    (hends : (x.begins i || x.leaves i) = true) :
    mid.countP (·.decides i) = if x.cuts i then 0 else 1 := by
  have hbefore := phase?_of_timer? ht
  have hcount : mid.countP (·.decides i) = if t.state.phase = .listen then 0 else 1 := by
    rcases h.decisions with ⟨hphase, hcount⟩ | ⟨hphase, hcount⟩
    · rw [hcount, if_pos hphase]
    · rw [hcount, if_neg (by simp [hphase])]
  have hcuts (hends : (x.resets i || x.leaves i) = true) :
      x.cuts i = decide (t.state.phase = .listen) := by
    rw [Moment.cuts, hends, hbefore]
    simp
  cases hx.course ht with
  | idle _ _ hleaves hbegins =>
    rw [hleaves, hbegins] at hends
    cases hends
  | postponed hsignal _ _ hbegins | decided hsignal _ _ _ hbegins =>
    rw [hbegins, Moment.leaves, hsignal] at hends
    cases hends
  | ended hsignal _ _ hphase =>
    have hcut : x.cuts i = false := by
      rw [Moment.cuts, hbefore]
      simp [hphase]
    rw [hcount, if_neg hphase, hcut]
    rfl
  | reset _ hreset =>
    rw [hcuts (by rw [hreset]; rfl), hcount]
    simp
  | left hsignal =>
    rw [hcuts (by simp [Moment.leaves, hsignal]), hcount]
    simp

/-- Every decision belongs to an interval that has begun, and depends on what was heard since. -/
theorem Trail.decisions {pre : List (Moment ρ)} (h : Trail p n pre k) (hn : n.timer? i = none)
    (ht : k.timer? i = some t) (hphase : t.state.phase = .listen) :
    ∃ (before : List (Moment ρ)) (b : Moment ρ) (mid : List (Moment ρ)),
      pre = before ++ b :: mid ∧ b.begins i = true ∧
      (∀ y ∈ mid, y.begins i = false ∧ y.leaves i = false ∧ y.decides i = false) ∧
      t.state.heard = min (mid.countP (·.hears i)) 255 := by
  obtain ⟨before, b, mid, rfl, hb, hmid⟩ := h.exists_begins hn ht
  obtain ⟨-, hvalid, htrail⟩ := h.cut
  obtain ⟨t₀, ht₀, hlisten, hheard⟩ := hvalid.begun hb
  obtain ⟨t', ht', hinside⟩ := htrail.inside ht₀ hlisten hheard hmid
  obtain rfl := Option.some.inj (ht.symm.trans ht')
  refine ⟨before, b, mid, rfl, hb, fun y hy => ⟨(hmid y hy).1, (hmid y hy).2, ?_⟩, hinside.heard⟩
  rcases hinside.decisions with ⟨-, hnone⟩ | ⟨hjitter, -⟩
  · exact Bool.eq_false_iff.2 (List.countP_eq_zero.1 hnone y hy)
  · rw [hphase] at hjitter
    cases hjitter

/-- The intervals of an instance that is joined are accounted for by the advertisements counted as
sent or suppressed since it was joined, the listen phase it may be in, and the resets that cut a
listen phase short.  An interval takes at most one decision, and exactly one unless a reset or a
leave cuts it short in its listen phase.  A decision counts as sent, and hands an advertisement to
the outbox, exactly if fewer consistent advertisements than the redundancy were heard since its
interval began; the outbox takes it unless it is full, and then it counts as dropped. -/
theorem one_decision_per_interval {source : ρ} {clock : Instant} {ready : Bool}
    (hrun : Run p (.new source clock ready) ms n) (i : InstanceId) :
    (∀ d : Dodag, n.dodags.find? i = some d → ∃ (pre : List (Moment ρ)) (b : Moment ρ)
      (post : List (Moment ρ)), ms = pre ++ b :: post ∧ b.joins i = true ∧
      (∀ x ∈ post, x.leaves i = false) ∧
      d.counts.intervals = d.counts.sent + d.counts.suppressed +
        (if d.phase = .listen then 1 else 0) + post.countP (·.resetsListening i)) ∧
    (∀ (pre : List (Moment ρ)) (b : Moment ρ) (mid post : List (Moment ρ)),
      ms = pre ++ b :: (mid ++ post) → b.begins i = true →
      (∀ x ∈ mid, x.begins i = false ∧ x.leaves i = false) →
      mid.countP (·.decides i) ≤ 1 ∧
        ∀ (x : Moment ρ) (rest : List (Moment ρ)), post = x :: rest →
          (x.begins i || x.leaves i) = true →
          mid.countP (·.decides i) = if x.cuts i then 0 else 1) ∧
    ∀ (pre : List (Moment ρ)) (x : Moment ρ) (post : List (Moment ρ)), ms = pre ++ x :: post →
      x.decides i = true → ∃ (before : List (Moment ρ)) (b : Moment ρ) (mid : List (Moment ρ))
        (d d' : Dodag), pre = before ++ b :: mid ∧ b.begins i = true ∧
        (∀ y ∈ mid, y.begins i = false ∧ y.leaves i = false ∧ y.decides i = false) ∧
        x.before.dodags.find? i = some d ∧ x.after.dodags.find? i = some d' ∧
        (mid.countP (·.hears i) < d.params.redundancy.toNat → x.before.Advertises x.after i d d') ∧
        (d.params.redundancy.toNat ≤ mid.countP (·.hears i) →
          x.before.Suppresses x.after d d') := by
  have hnew : (Node.new source clock ready).timer? i = none := rfl
  refine ⟨?_, ?_, ?_⟩
  · intro d hd
    exact hrun.trail.balanced hnew (timer?_of_find? hd)
  · rintro pre b mid post rfl hb hmid
    obtain ⟨-, hvalid, htrail⟩ := hrun.trail.cut
    obtain ⟨t, ht, hphase, hheard⟩ := hvalid.begun hb
    constructor
    · obtain ⟨k, hbefore, -⟩ := htrail.split
      obtain ⟨t', -, hinside⟩ := hbefore.inside ht hphase hheard hmid
      rcases hinside.decisions with ⟨-, hcount⟩ | ⟨-, hcount⟩ <;> omega
    · rintro x rest rfl hends
      obtain ⟨hbefore, hx, -⟩ := htrail.cut
      obtain ⟨t', ht', hinside⟩ := hbefore.inside ht hphase hheard hmid
      exact hinside.ended ht' hx hends
  · rintro pre x post rfl hdecides
    obtain ⟨hpre, hx, -⟩ := hrun.trail.cut
    have hphase? : x.before.phase? i = some .listen := by
      simp only [Moment.decides, Bool.and_eq_true, decide_eq_true_eq] at hdecides
      exact hdecides.1
    rw [phase?, Option.map_eq_some_iff] at hphase?
    obtain ⟨d, hd, hphase⟩ := hphase?
    obtain ⟨before, b, mid, rfl, hb, hmid, hheard⟩ :=
      hpre.decisions hnew (timer?_of_find? hd) hphase
    have hheard : d.heard = min (mid.countP (·.hears i)) 255 := hheard
    have hredundancy : d.params.redundancy.toNat < 256 := UInt8.toNat_lt _
    obtain ⟨d', hd', hdecision⟩ := hx.decision hd hdecides
    refine ⟨before, b, mid, d, d', rfl, hb, hmid, hd, hd', fun hlt => ?_, fun hle => ?_⟩
    · rcases hdecision with ⟨-, hsent⟩ | ⟨hmany, -⟩
      · exact hsent
      · omega
    · rcases hdecision with ⟨hfew, -⟩ | ⟨-, hsuppressed⟩
      · omega
      · exact hsuppressed

/-- Requests to a node that joins an instance in which one advertisement makes its own redundant,
hears one in the first listen phase and one in the jitter phase after it, and then resets the timer
twice. -/
def heardAndReset : List (Operation × Instant) :=
  [(.join 1 { minExponent := 3, doublings := 1, redundancy := 1 }, .zero),
    (.command (.dioConsistent 1), .zero), (.handleTimer, .ofTicks 4),
    (.command (.dioConsistent 1), .ofTicks 5), (.handleTimer, .ofTicks 16),
    (.command (.resetDio 1 true), .ofTicks 16), (.command (.resetDio 1 true), .ofTicks 17)]

/-- What was heard before the second interval began does not keep it from advertising.  The first
reset ends that interval after its decision, and the second one cuts a listen phase short. -/
theorem one_decision_per_interval_until_reset :
    ∃ (pre mid : List (Moment Generator)) (b x y : Moment Generator) (n : Node Generator),
      record .millis heardAndReset (.new (.fixed 0) .zero true) =
        .ok (pre ++ b :: (mid ++ [x, y]), n) ∧
      pre.countP (·.hears 1) = 2 ∧ b.begins 1 = true ∧
      n.outbox.toList = [.dio 1 ⟨.ofTicks 8, .ofTicks 8, .ofTicks 8⟩] ∧ x.resets 1 = true ∧
      x.cuts 1 = false ∧ y.cuts 1 = true ∧
      mid.countP (·.decides 1) = if x.cuts 1 then 0 else 1 := by
  obtain ⟨pre, mid, b, x, y, n, hrecord, hheard, hb, hmid, hsent, hreset, hx, hnot, hcut⟩ :
      ∃ (pre mid : List (Moment Generator)) (b x y : Moment Generator) (n : Node Generator),
        record .millis heardAndReset (.new (.fixed 0) .zero true) =
          .ok (pre ++ b :: (mid ++ [x, y]), n) ∧
        pre.countP (·.hears 1) = 2 ∧ b.begins 1 = true ∧
        (∀ z ∈ mid, z.begins 1 = false ∧ z.leaves 1 = false) ∧
        n.outbox.toList = [.dio 1 ⟨.ofTicks 8, .ofTicks 8, .ofTicks 8⟩] ∧ x.resets 1 = true ∧
        (x.begins 1 || x.leaves 1) = true ∧ x.cuts 1 = false ∧ y.cuts 1 = true :=
    ⟨[_, _, _, _, _], [_, _], _, _, _, _, rfl, rfl, rfl, by decide, rfl, rfl, rfl, rfl, rfl⟩
  have hparts := one_decision_per_interval (Run.start.record hrecord) 1
  exact ⟨pre, mid, b, x, y, n, hrecord, hheard, hb, hsent, hreset, hnot, hcut,
    (hparts.2.1 pre b mid [x, y] rfl hb hmid).2 x [y] rfl hx⟩

/-- Requests to a node that joins an instance with intervals of one tick and notices its alarms
after 16 ms. -/
def seventeenDecisions : List (Operation × Instant) :=
  [(.join 1 { minExponent := 0, doublings := 0 }, .zero), (.handleTimer, .ofTicks 16)]

set_option maxRecDepth 4000 in
/-- The outbox holds sixteen messages.  Nobody is heard before the seventeenth decision, so it
counts as sent, but no advertisement is queued; it counts as dropped. -/
theorem advertisement_lost_in_full_outbox :
    ∃ (ms : List (Moment Generator)) (x : Moment Generator) (n : Node Generator) (d d' : Dodag),
      record .millis seventeenDecisions (.new (.fixed 0) .zero true) = .ok (ms, n) ∧
      ms[33]? = some x ∧ x.decides 1 = true ∧ x.before.dodags.find? 1 = some d ∧
      x.after.dodags.find? 1 = some d' ∧ ms.countP (·.hears 1) = 0 ∧
      0 < d.params.redundancy.toNat ∧ d'.counts.sent = d.counts.sent + 1 ∧
      x.after.outbox.toList = x.before.outbox.toList ∧
      x.after.counts.controlDropped = x.before.counts.controlDropped + 1 := by
  refine ⟨_, _, _, _, _, rfl, rfl, rfl, rfl, rfl, rfl, ?_, rfl, rfl, rfl⟩
  decide

end TrickleNet.Node

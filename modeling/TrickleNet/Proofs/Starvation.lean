import Mathlib
import TrickleNet.Proofs.Decision
/-!
# Solicitations do not starve advertisements

A neighbour that solicits advertisements asks for a reset that is not forced, and such a reset takes
effect only on an interval that has grown.  An interval grows when it ends, and it ends after its
decision (`Dodag.Grown`).  So each decision pays for at most one reset that is not forced, and a
reset of any kind spends what was paid before (`Moment.Valid.grown_le`).

In the record of a run there are then never more such resets than decisions, and a decision lies
between any two of them (`resets_never_starve`).
-/

namespace TrickleNet

/-- The timer has got past a decision since its last reset: the decision of the current interval was
taken, or the interval is not the shortest. -/
def Dodag.Grown (d : Dodag) : Prop := d.phase ≠ .listen ∨ d.params.minExponent.toNat < d.exponent

instance (d : Dodag) : Decidable d.Grown := inferInstanceAs (Decidable (_ ∨ _))

namespace Node

variable {ρ : Type} {p : Platform} {n k : Node ρ} {x : Moment ρ} {i : InstanceId} {t : Timer}
  {d d' : Dodag} {now : Instant} {ms : List (Moment ρ)}

/-- A reset that is not forced takes effect. -/
def Moment.resetsUnforced (x : Moment ρ) (i : InstanceId) : Bool :=
  match x.event.signal? i with
  | some (.reset false _) => x.resets i
  | _ => false

/-- The timer of an instance that is joined has got past a decision since its last reset. -/
def hasGrown (n : Node ρ) (i : InstanceId) : Bool := (n.timer? i).any fun t => t.state.Grown

theorem hasGrown_of_timer? (ht : n.timer? i = some t) : n.hasGrown i = decide t.state.Grown := by
  rw [hasGrown, ht, Option.any_some]

theorem hasGrown_of_none (ht : n.timer? i = none) : n.hasGrown i = false := by
  rw [hasGrown, ht, Option.any_none]

/-- Where no reset takes effect, none that is not forced does. -/
theorem resetsUnforced_eq_false (h : x.resets i = false) : x.resetsUnforced i = false := by
  unfold Moment.resetsUnforced
  split
  · exact h
  · rfl

/-- A reset that is not forced takes effect only on a timer that has grown. -/
theorem hasGrown_of_resetsUnforced (h : x.resetsUnforced i = true) :
    x.before.hasGrown i = true := by
  unfold Moment.resetsUnforced at h
  split at h
  · rename_i now hsignal
    rw [Moment.resets_eq, hsignal] at h
    obtain ⟨t, ht, hresets⟩ := (Option.any_eq_true _ _).1 h
    rw [hasGrown_of_timer? ht]
    simp only [Dodag.resets, Bool.false_or, decide_eq_true_eq] at hresets
    exact decide_eq_true (.inr hresets)
  · cases h

variable [RandomSource ρ]

/-- A timer whose shortest interval begins has not grown. -/
theorem not_grown_of_begin {split : Split} {source source' : ρ}
    (h : d.restart.begin p source = .ok (split, d', source')) : ¬d'.Grown := by
  obtain ⟨middle, next, -, -, -, -, rfl⟩ := Dodag.begin_eq_ok h
  simp [Dodag.Grown, Dodag.restart]

/-- A decision pays for one reset that is not forced, and a reset spends what was paid. -/
theorem Moment.Valid.grown_le (h : x.Valid p) :
    (if x.resetsUnforced i then 1 else 0) + (if x.after.hasGrown i then 1 else 0) ≤
      (if x.before.hasGrown i then 1 else 0) + if x.decides i then 1 else 0 := by
  have hring {due : Instant} (hsignal : x.event.signal? i = some (.ring due)) :
      x.resetsUnforced i = false := by
    rw [Moment.resetsUnforced, hsignal]
  cases ht : x.before.timer? i with
  | none =>
    have hbefore := hasGrown_of_none ht
    have hnot : x.resetsUnforced i = false := by
      rw [Bool.eq_false_iff]
      intro hresets
      rw [hasGrown_of_resetsUnforced hresets] at hbefore
      cases hbefore
    have hafter : x.after.hasGrown i = false := by
      cases ht' : x.after.timer? i with
      | none => exact hasGrown_of_none ht'
      | some t' =>
        obtain ⟨params, now, split, source, source', -, -, hbegin, -⟩ := h.joined ht ht'
        rw [hasGrown_of_timer? ht']
        exact decide_eq_false (not_grown_of_begin hbegin)
    simp [hnot, hafter]
  | some t =>
    rw [hasGrown_of_timer? ht]
    cases h.course ht with
    | idle _ hresets _ _ _ hafter =>
      have hsame : x.after.hasGrown i = decide t.state.Grown := by
        rw [hasGrown_of_timer? hafter]
        cases x.hears i <;> rfl
      rw [resetsUnforced_eq_false hresets, hsame]
      simp
    | postponed hsignal _ _ _ _ hafter =>
      rw [hring hsignal, hasGrown_of_timer? hafter]
      simp
    | decided hsignal _ _ _ _ hdecides hafter =>
      simp only [hring hsignal, hdecides, Bool.false_eq_true, if_false, if_true]
      split_ifs <;> omega
    | ended hsignal _ _ hphase =>
      have hgrown : t.state.Grown := .inl hphase
      simp only [hring hsignal, hgrown, decide_true, Bool.false_eq_true, if_false, if_true]
      split_ifs <;> omega
    | reset _ _ _ _ hbegin hafter =>
      rw [hasGrown_of_timer? hafter, decide_eq_false (not_grown_of_begin hbegin)]
      by_cases hresets : x.resetsUnforced i = true
      · have hgrown := hasGrown_of_resetsUnforced hresets
        rw [hasGrown_of_timer? ht] at hgrown
        simp [hresets, hgrown]
      · simp [hresets]
    | left hsignal _ _ hafter =>
      have hnot : x.resetsUnforced i = false := by
        rw [Moment.resetsUnforced, hsignal]
      rw [hnot, hasGrown_of_none hafter]
      simp

/-- An instance that was just joined has not grown and has counted no decision. -/
theorem Moment.Valid.just_joined (h : x.Valid p) (hjoins : x.joins i = true) :
    ∃ t, x.after.timer? i = some t ∧ ¬t.state.Grown ∧
      t.state.counts.sent + t.state.counts.suppressed = 0 := by
  simp only [Moment.joins, contains_eq, Bool.and_eq_true, Bool.not_eq_true',
    Option.isSome_eq_false_iff, Option.isNone_iff_eq_none] at hjoins
  obtain ⟨t, ht⟩ := Option.isSome_iff_exists.1 hjoins.2
  obtain ⟨params, now, split, source, source', -, -, hbegin, -⟩ := h.joined hjoins.1 ht
  refine ⟨t, ht, not_grown_of_begin hbegin, ?_⟩
  obtain ⟨middle, next, -, -, -, -, hstate⟩ := Dodag.begin_eq_ok hbegin
  rw [hstate]
  rfl

/-- A reset that takes effect leaves a timer that has not grown, forced or not. -/
theorem Moment.Valid.just_reset (h : x.Valid p) (hresets : x.resets i = true) :
    x.after.hasGrown i = false := by
  cases ht : x.before.timer? i with
  | none =>
    rw [Moment.resets_eq, ht] at hresets
    split at hresets <;> cases hresets
  | some t =>
    cases h.course ht with
    | reset _ _ _ _ hbegin hafter =>
      rw [hasGrown_of_timer? hafter]
      exact decide_eq_false (not_grown_of_begin hbegin)
    | left _ _ _ hafter => exact hasGrown_of_none hafter
    | idle _ hnot =>
      rw [hresets] at hnot
      cases hnot
    | postponed hsignal | decided hsignal | ended hsignal =>
      rw [Moment.resets, hsignal] at hresets
      cases hresets

/-- Along a trail the decisions, and one more if the timer had grown at its start, are no fewer than
the resets that are not forced, and one more if it has grown at the end. -/
theorem Trail.grown_le (h : Trail p n ms k) :
    ms.countP (·.resetsUnforced i) + (if k.hasGrown i then 1 else 0) ≤
      (if n.hasGrown i then 1 else 0) + ms.countP (·.decides i) := by
  refine h.snoc_induction (motive := fun ms k =>
    ms.countP (·.resetsUnforced i) + (if k.hasGrown i then 1 else 0) ≤
      (if n.hasGrown i then 1 else 0) + ms.countP (·.decides i)) ?_ ?_ ?_
  · exact Nat.le_of_eq (Nat.add_comm _ _)
  · intro ms n m hsame ih
    rw [hasGrown, hsame.timer?]
    exact ih
  · intro ms x hx ih
    have hstep := hx.grown_le (i := i)
    simp only [List.countP_append, List.countP_singleton]
    omega

/-! ## Decisions are counted -/

omit [RandomSource ρ] in
/-- A decision is counted as sent or as suppressed. -/
theorem decided_counts (d : Dodag) : d.decided.counts.sent + d.decided.counts.suppressed =
    d.counts.sent + d.counts.suppressed + 1 := by
  unfold Dodag.decided
  dsimp only
  split <;> dsimp only <;> omega

/-- Every decision of an instance is counted, and nothing else is. -/
theorem Moment.Course.counts {t' : Timer} (h : x.Course p i t) (ht' : x.after.timer? i = some t') :
    t'.state.counts.sent + t'.state.counts.suppressed =
      t.state.counts.sent + t.state.counts.suppressed + if x.decides i then 1 else 0 := by
  cases h with
  | idle _ _ _ _ hdecides hafter =>
    obtain rfl := Option.some.inj (ht'.symm.trans hafter)
    rw [hdecides]
    cases x.hears i <;> rfl
  | postponed _ _ _ _ hdecides hafter =>
    obtain rfl := Option.some.inj (ht'.symm.trans hafter)
    rw [hdecides]
    rfl
  | decided _ _ _ _ _ hdecides hafter =>
    obtain rfl := Option.some.inj (ht'.symm.trans hafter)
    rw [hdecides]
    exact decided_counts t.state
  | ended _ _ _ _ _ hdecides hbegin hafter =>
    obtain rfl := Option.some.inj (ht'.symm.trans hafter)
    obtain ⟨middle, next, -, -, -, -, rfl⟩ := Dodag.begin_eq_ok hbegin
    rw [hdecides, Dodag.grow_eq]
    rfl
  | reset _ _ _ hdecides hbegin hafter =>
    obtain rfl := Option.some.inj (ht'.symm.trans hafter)
    obtain ⟨middle, next, -, -, -, -, rfl⟩ := Dodag.begin_eq_ok hbegin
    rw [hdecides]
    rfl
  | left _ _ _ hafter =>
    rw [hafter] at ht'
    cases ht'

/-- An instance that is not left is still joined afterwards. -/
theorem Moment.Course.exists_timer (h : x.Course p i t) (hleaves : x.leaves i = false) :
    ∃ t', x.after.timer? i = some t' := by
  cases h with
  | idle _ _ _ _ _ hafter | postponed _ _ _ _ _ hafter | decided _ _ _ _ _ _ hafter
  | ended _ _ _ _ _ _ _ hafter | reset _ _ _ _ _ hafter => exact ⟨_, hafter⟩
  | left hsignal =>
    rw [leaves, hsignal] at hleaves
    cases hleaves

/-- While an instance is not left, its counts grow by one with each decision. -/
theorem Trail.counts (h : Trail p n ms k) (ht : n.timer? i = some t)
    (hms : ∀ x ∈ ms, x.leaves i = false) :
    ∃ t', k.timer? i = some t' ∧ t'.state.counts.sent + t'.state.counts.suppressed =
      t.state.counts.sent + t.state.counts.suppressed + ms.countP (·.decides i) := by
  refine Trail.timer_induction (motive := fun ms t' =>
    t'.state.counts.sent + t'.state.counts.suppressed =
      t.state.counts.sent + t.state.counts.suppressed + ms.countP (·.decides i)) rfl ?_ h ht hms
  intro ms x u hx hleaves hu ih
  have hcourse := hx.course hu
  obtain ⟨u', hu'⟩ := hcourse.exists_timer hleaves
  have hstep := hcourse.counts hu'
  refine ⟨u', hu', ?_⟩
  simp only [List.countP_append, List.countP_singleton]
  omega

/-! ## Runs -/

/-- However often neighbours solicit advertisements, a node goes on taking decisions.  Since an
instance was joined it has sent or suppressed an advertisement for each of its decisions, and the
resets that are not forced and take effect are no more than these.  Between any reset that takes
effect, or the join, and the next one that is not forced lies a decision.  A reset that is not
forced and finds the interval at its shortest leaves the whole node as it is. -/
theorem resets_never_starve {source : ρ} {clock : Instant} {ready : Bool}
    (hrun : Run p (.new source clock ready) ms n) (i : InstanceId) :
    (∀ d, n.dodags.find? i = some d →
      ∃ (pre : List (Moment ρ)) (b : Moment ρ) (post : List (Moment ρ)), ms = pre ++ b :: post ∧
        b.joins i = true ∧ (∀ y ∈ post, y.leaves i = false) ∧
        d.counts.sent + d.counts.suppressed = post.countP (·.decides i) ∧
        post.countP (·.resetsUnforced i) ≤ d.counts.sent + d.counts.suppressed) ∧
    (∀ (pre : List (Moment ρ)) (b : Moment ρ) (mid : List (Moment ρ)) (x : Moment ρ)
        (post : List (Moment ρ)), ms = pre ++ b :: (mid ++ x :: post) →
      b.joins i = true ∨ b.resets i = true → x.resetsUnforced i = true →
        ∃ y ∈ mid, y.decides i = true) ∧
    ∀ d now, n.dodags.find? i = some d → d.exponent = d.params.minExponent.toNat →
      n.perform p (.command (.resetDio i false)) now = .ok (.granted n) := by
  refine ⟨fun d hd => ?_, ?_, fun d now hd hexponent => ?_⟩
  · obtain ⟨pre, b, post, rfl, hb, hpost, -⟩ := hrun.trail.balanced rfl (timer?_of_find? hd)
    obtain ⟨-, hvalid, htrail⟩ := hrun.trail.cut
    obtain ⟨t, ht, hgrown, hzero⟩ := hvalid.just_joined hb
    obtain ⟨t', ht', hcounts⟩ := htrail.counts ht hpost
    obtain rfl := Option.some.inj (ht'.symm.trans (timer?_of_find? hd))
    have hdecisions : d.counts.sent + d.counts.suppressed = post.countP (·.decides i) := by
      rw [hzero, Nat.zero_add] at hcounts
      exact hcounts
    have hle := htrail.grown_le (i := i)
    rw [hasGrown_of_timer? ht, decide_eq_false hgrown] at hle
    refine ⟨pre, b, post, rfl, hb, hpost, hdecisions, ?_⟩
    simp only [Bool.false_eq_true, if_false] at hle
    omega
  · rintro pre b mid x post rfl hb hx
    obtain ⟨-, hvalid, htrail⟩ := hrun.trail.cut
    obtain ⟨hmid, -, -⟩ := htrail.cut
    have hstart : b.after.hasGrown i = false := by
      rcases hb with hjoins | hresets
      · obtain ⟨t, ht, hgrown, -⟩ := hvalid.just_joined hjoins
        rw [hasGrown_of_timer? ht]
        exact decide_eq_false hgrown
      · exact hvalid.just_reset hresets
    have hle := hmid.grown_le (i := i)
    rw [hstart, hasGrown_of_resetsUnforced hx] at hle
    simp only [Bool.false_eq_true, if_false, if_true] at hle
    apply List.countP_pos_iff.1
    omega
  · simp [perform, handleCommand, resetDio, hd, hexponent]

/-- Requests to a node that joins an instance and is asked over and over for advertisements. -/
def solicitedOften : List (Operation × Instant) :=
  [(.join 1 { minExponent := 3, doublings := 2 }, .zero),
    (.command (.resetDio 1 false), .ofTicks 1), (.handleTimer, .ofTicks 8),
    (.command (.resetDio 1 false), .ofTicks 9), (.command (.resetDio 1 false), .ofTicks 10),
    (.handleTimer, .ofTicks 17), (.command (.resetDio 1 false), .ofTicks 18)]

/-- The first interval ends after 8 ms, and the reset that follows takes effect.  The next one does
not, so the interval that began with the reset ends as well, and the last reset takes effect
again. -/
theorem resets_never_starve_solicited :
    ∃ (pre mid : List (Moment Generator)) (b x : Moment Generator) (n : Node Generator) (d : Dodag),
      record .millis solicitedOften (.new (.fixed 0) .zero true) =
        .ok (pre ++ b :: (mid ++ [x]), n) ∧
      b.event = .request (.command (.resetDio 1 false)) (.ofTicks 9) ∧ b.resets 1 = true ∧
      x.event = .request (.command (.resetDio 1 false)) (.ofTicks 18) ∧
      x.resetsUnforced 1 = true ∧ n.dodags.find? 1 = some d ∧
      d.counts.sent + d.counts.suppressed = 2 ∧
      (pre ++ b :: (mid ++ [x])).countP (·.resetsUnforced 1) = 2 ∧
      ∃ y ∈ mid, y.decides 1 = true := by
  obtain ⟨pre, mid, b, x, n, d, hrecord, hevent, hb, hevent', hx, hd, hcounts, hresets⟩ :
      ∃ (pre mid : List (Moment Generator)) (b x : Moment Generator) (n : Node Generator)
        (d : Dodag), record .millis solicitedOften (.new (.fixed 0) .zero true) =
          .ok (pre ++ b :: (mid ++ [x]), n) ∧
        b.event = .request (.command (.resetDio 1 false)) (.ofTicks 9) ∧ b.resets 1 = true ∧
        x.event = .request (.command (.resetDio 1 false)) (.ofTicks 18) ∧
        x.resetsUnforced 1 = true ∧ n.dodags.find? 1 = some d ∧
        d.counts.sent + d.counts.suppressed = 2 ∧
        (pre ++ b :: (mid ++ [x])).countP (·.resetsUnforced 1) = 2 :=
    ⟨[_, _, _, _, _], [_, _, _, _], _, _, _, _, rfl, rfl, rfl, rfl, rfl, rfl, rfl, rfl⟩
  have hparts := resets_never_starve (Run.start.record hrecord) 1
  exact ⟨pre, mid, b, x, n, d, hrecord, hevent, hb, hevent', hx, hd, hcounts, hresets,
    hparts.2.1 pre b mid x [] rfl (.inr hb) hx⟩

end Node

end TrickleNet

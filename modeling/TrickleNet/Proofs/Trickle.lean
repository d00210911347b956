import Mathlib
import TrickleNet.Proofs.Course
/-!
# The invariant of trickle timers

`Dodag.Timed` adds to `Dodag.Paced` that the jitter phase is the rest of a split of the current
interval.  Every step of a trickle timer keeps it (`Timer.Step.timed`), so it holds of every
instance of every reachable node (`trickle_invariant`).  Two things follow for the record of a run:
no advertisement announces the empty schedule, and the exponent of an interval falls only where a
reset takes effect.
-/

namespace TrickleNet

/-- What a trickle timer keeps about its current interval and about the next one. -/
structure Dodag.Timed (p : Platform) (d : Dodag) : Prop extends d.Paced p where
  /-- The jitter phase is what a split leaves of the current interval. -/
  current : ∃ s : Split, s.Divides (intervalSpan p d.exponent) ∧ s.jitter = d.jitter

/-- At most half of an interval, rounded up, is its jitter phase. -/
theorem Split.Divides.jitter_le {s : Split} {span : Span} (h : s.Divides span) :
    s.jitter.ticks ≤ span.ticks - span.ticks / 2 := by
  have htotal := h.total
  have hhalf := h.half_le
  omega

namespace Dodag

variable {p : Platform} {d d' : Dodag} {split : Split}

/-- The parents have no part in what a trickle timer keeps. -/
theorem Timed.of_bare (h : d.bare.Timed p) : d.Timed p :=
  ⟨⟨h.valid, h.min_le, h.le_max, h.phase, h.jitter_pos, h.pending⟩, h.current⟩

theorem Timed.hear (h : d.Timed p) : d.hear.Timed p :=
  ⟨⟨h.valid, h.min_le, h.le_max, h.phase, h.jitter_pos, h.pending⟩, h.current⟩

theorem Timed.decided (h : d.Timed p) : d.decided.Timed p := ⟨h.toPaced.decided, h.current⟩

/-- An advertisement announces a delay and an interval that will begin after it. -/
theorem Timed.lookahead_divides (h : d.Timed p) : 1 ≤ d.lookahead.delay.ticks ∧
    (⟨d.lookahead.listen, d.lookahead.jitter⟩ : Split).Divides (intervalSpan p d.nextExponent) := by
  obtain ⟨s, hs, hdivides⟩ := h.pending
  refine ⟨h.jitter_pos, ?_⟩
  simpa [lookahead, hs] using hdivides

theorem Timed.lookahead_ne (h : d.Timed p) : d.lookahead ≠ {} := by
  intro heq
  have hpos := h.lookahead_divides.1
  rw [heq] at hpos
  exact absurd hpos (by decide)

/-- The exponent of the next interval, without the clamps to a byte. -/
theorem Paced.nextExponent_eq (h : d.Paced p) : d.nextExponent =
    min (d.exponent + 1) (d.params.minExponent.toNat + d.params.doublings.toNat) := by
  have hmax := h.valid.maxExponent_lt
  have hle := h.le_max
  have heq := h.valid.maxExponent_eq
  simp only [nextExponent, TrickleParams.exponentLimit] at *
  omega

variable {ρ : Type} [RandomSource ρ] {source source' : ρ}

/-- The shortest interval begins with a split of its own. -/
theorem divides_restart (h : d.restart.begin p source = .ok (split, d', source')) :
    split.Divides (intervalSpan p d.params.minExponent.toNat) := by
  obtain ⟨middle, next, hsplit, -⟩ := begin_eq_ok h
  obtain ⟨s, source'', hs, hdivides⟩ := Split.draw_divides p d.params.minExponent.toNat source
  obtain ⟨rfl, -⟩ := Prod.mk.inj (Except.ok.inj (hs.symm.trans hsplit))
  exact hdivides

theorem timed_restart (h : d.restart.begin p source = .ok (split, d', source'))
    (hvalid : d.params.Valid) : d'.Timed p := by
  obtain ⟨middle, next, -, -, -, -, hd'⟩ := begin_eq_ok h
  refine ⟨paced_restart h hvalid, split, ?_, ?_⟩
  · rw [hd']
    exact divides_restart h
  · rw [hd']

theorem Timed.begin_grow (hd : d.Timed p)
    (h : d.grow.begin p source = .ok (split, d', source')) : d'.Timed p := by
  obtain ⟨-, hdivides, hpaced, hexponent⟩ := hd.toPaced.begin_grow h
  obtain ⟨middle, next, -, -, -, -, hd'⟩ := begin_eq_ok h
  refine ⟨hpaced, split, ?_, ?_⟩
  · rw [hexponent]
    exact hdivides
  · rw [hd']

end Dodag

variable {ρ : Type} [RandomSource ρ] {p : Platform}

/-- No event takes a trickle timer out of its invariant. -/
theorem Timer.Step.timed {ready : Bool} {s : Option Signal} {t t' : Option Timer}
    (h : Timer.Step ρ p ready s t t') (ht : ∀ u ∈ t, u.state.Timed p) :
    ∀ u ∈ t', u.state.Timed p := by
  intro u hu
  cases h with
  | aside => exact ht u hu
  | absent => cases hu
  | joined hvalid hbegin =>
    obtain rfl := Option.some.inj hu
    exact Dodag.timed_restart hbegin hvalid
  | refused => exact ht u hu
  | left => cases hu
  | kept => exact ht u hu
  | reset _ hbegin =>
    obtain rfl := Option.some.inj hu
    exact Dodag.timed_restart hbegin (ht _ rfl).valid
  | heard =>
    obtain rfl := Option.some.inj hu
    exact (ht _ rfl).hear
  | @postponed _ t =>
    obtain rfl := Option.some.inj hu
    exact ht t rfl
  | decided =>
    obtain rfl := Option.some.inj hu
    exact (ht _ rfl).decided
  | ended _ _ _ hbegin =>
    obtain rfl := Option.some.inj hu
    exact (ht _ rfl).begin_grow hbegin

namespace Node

variable {n k : Node ρ} {x : Moment ρ} {i : InstanceId} {t t' : Timer} {ms : List (Moment ρ)}

/-- All trickle timers of the node are in order. -/
def Timed (p : Platform) (n : Node ρ) : Prop := ∀ i, ∀ t ∈ n.timer? i, t.state.Timed p

omit [RandomSource ρ] in
theorem timed_new (p : Platform) (source : ρ) (clock : Instant) (ready : Bool) :
    (Node.new source clock ready).Timed p := fun _ _ h => by cases h

/-- All trickle timers are in order at each moment of a trail and at its end. -/
theorem Trail.timed (h : Trail p n ms k) (hn : n.Timed p) :
    k.Timed p ∧ ∀ x ∈ ms, x.Valid p ∧ x.before.Timed p := by
  refine h.snoc_induction
    (motive := fun ms k => k.Timed p ∧ ∀ x ∈ ms, x.Valid p ∧ x.before.Timed p) ?_ ?_ ?_
  · exact ⟨hn, fun x hx => absurd hx List.not_mem_nil⟩
  · rintro ms n m hsame ⟨hn, hms⟩
    refine ⟨fun i => ?_, hms⟩
    rw [hsame.timer?]
    exact hn i
  · rintro ms x hx ⟨hn, hms⟩
    refine ⟨fun i => (hx.turns.timers i).timed (hn i), fun y hy => ?_⟩
    rcases List.mem_append.1 hy with hy | hy
    · exact hms y hy
    · obtain rfl := List.mem_singleton.1 hy
      exact ⟨hx, hn⟩

/-- The exponent of an interval falls only where a reset takes effect, and that makes it the
least. -/
theorem Moment.Course.exponent (h : x.Course p i t) (ht : t.state.Timed p)
    (ht' : x.after.timer? i = some t') :
    (t'.state.exponent < t.state.exponent → x.resets i = true) ∧
      (x.resets i = true → t'.state.exponent = t.state.params.minExponent.toNat) := by
  have hnot {s : Signal} (hsignal : x.event.signal? i = some s) (hs : ∀ f u, s ≠ .reset f u) :
      x.resets i = false := by
    cases s <;> simp_all [Moment.resets]
  -- Elsewhere the exponent stays as it is, or grows by one.
  have hgrows (hreset : x.resets i = false) (hle : t.state.exponent ≤ t'.state.exponent) :
      (t'.state.exponent < t.state.exponent → x.resets i = true) ∧
        (x.resets i = true → t'.state.exponent = t.state.params.minExponent.toNat) := by
    refine ⟨fun hlt => absurd hle (Nat.not_le.2 hlt), fun h => ?_⟩
    rw [hreset] at h
    cases h
  cases h with
  | idle _ hreset _ _ _ hafter =>
    obtain rfl := Option.some.inj (ht'.symm.trans hafter)
    refine hgrows hreset (Nat.le_of_eq ?_)
    cases x.hears i <;> rfl
  | postponed hsignal _ _ _ _ hafter =>
    obtain rfl := Option.some.inj (ht'.symm.trans hafter)
    exact hgrows (hnot hsignal (by simp)) (Nat.le_refl _)
  | decided hsignal _ _ _ _ _ hafter =>
    obtain rfl := Option.some.inj (ht'.symm.trans hafter)
    exact hgrows (hnot hsignal (by simp)) (Nat.le_refl _)
  | ended hsignal _ _ _ _ _ hbegin hafter =>
    obtain rfl := Option.some.inj (ht'.symm.trans hafter)
    refine hgrows (hnot hsignal (by simp)) ?_
    have hle := ht.le_max
    have heq := ht.valid.maxExponent_eq
    rw [(ht.toPaced.begin_grow hbegin).2.2.2, ht.toPaced.nextExponent_eq]
    omega
  | reset _ hreset _ _ hbegin hafter =>
    obtain rfl := Option.some.inj (ht'.symm.trans hafter)
    obtain ⟨middle, next, -, -, -, -, hd⟩ := Dodag.begin_eq_ok hbegin
    exact ⟨fun _ => hreset, fun _ => congrArg Dodag.exponent hd⟩
  | left _ _ _ hafter =>
    rw [hafter] at ht'
    cases ht'

/-- In every reachable node each joined instance has an interval whose exponent lies within its
limits, is in the listen phase or in the jitter phase of it, has drawn the split of the interval
after it, and has for its jitter phase what a split leaves of the current interval.  No
advertisement announces the empty schedule, and the exponent falls only where a reset takes effect,
which makes it the least. -/
theorem trickle_invariant {source : ρ} {clock : Instant} {ready : Bool}
    (hrun : Run p (.new source clock ready) ms n) :
    (∀ i d, n.dodags.find? i = some d →
      (d.params.minExponent.toNat ≤ d.exponent ∧
        d.exponent ≤ d.params.minExponent.toNat + d.params.doublings.toNat ∧
        d.params.minExponent.toNat + d.params.doublings.toNat < TrickleParams.exponentLimit) ∧
      (d.phase = .listen ∨ d.phase = .jitter) ∧
      (∃ e s, e = min (d.exponent + 1) (d.params.minExponent.toNat + d.params.doublings.toNat) ∧
        d.pending = some ⟨e, s⟩ ∧ s.Divides (intervalSpan p e)) ∧
      ∃ s : Split, s.Divides (intervalSpan p d.exponent) ∧ s.jitter = d.jitter ∧
        1 ≤ d.jitter.ticks ∧
        d.jitter.ticks ≤
          (intervalSpan p d.exponent).ticks - (intervalSpan p d.exponent).ticks / 2) ∧
    ∀ x ∈ ms,
      (∃ new, x.after.outbox.toList = x.before.outbox.toList ++ new ∧
        ∀ i l, Control.dio i l ∈ new → l ≠ {}) ∧
      ∀ i d d', x.before.dodags.find? i = some d → x.after.dodags.find? i = some d' →
        (d'.exponent < d.exponent → x.resets i = true) ∧
          (x.resets i = true → d'.exponent = d.params.minExponent.toNat) := by
  obtain ⟨hn, hms⟩ := hrun.trail.timed (timed_new p source clock ready)
  constructor
  · intro i d hd
    have htimed : d.Timed p := (hn i _ (timer?_of_find? hd)).of_bare
    have hmax := htimed.le_max
    rw [htimed.valid.maxExponent_eq] at hmax
    refine ⟨⟨htimed.min_le, hmax, htimed.valid⟩, ?_, ?_, ?_⟩
    · have hidle := htimed.phase
      cases hphase : d.phase <;> simp_all
    · obtain ⟨s, hs, hdivides⟩ := htimed.pending
      exact ⟨d.nextExponent, s, htimed.nextExponent_eq, hs, hdivides⟩
    · obtain ⟨s, hdivides, hjitter⟩ := htimed.current
      have hle := hdivides.jitter_le
      rw [hjitter] at hle
      exact ⟨s, hdivides, hjitter, htimed.jitter_pos, hle⟩
  · intro x hx
    obtain ⟨hvalid, htimed⟩ := hms x hx
    refine ⟨?_, fun i d d' hd hd' => ?_⟩
    · obtain ⟨new, hnew, hdio⟩ := hvalid.turns.outbox
      refine ⟨new, hnew, fun i l hmem => ?_⟩
      obtain ⟨t, -, ht, -, -, -, -, rfl⟩ := hdio i l hmem
      exact (htimed i t ht).lookahead_ne
    · have ht := timer?_of_find? hd
      exact (hvalid.course ht).exponent (htimed i _ ht) (timer?_of_find? hd')

/-- Requests to a node that joins an instance, lets its alarms ring for a while, and goes back to
the shortest interval. -/
def grownAndReset : List (Operation × Instant) :=
  [(.join 1 { minExponent := 3, doublings := 2 }, .zero), (.handleTimer, .ofTicks 30),
    (.command (.resetDio 1 false), .ofTicks 30)]

/-- The first interval lasts 8 ms and the second one 16 ms, and the reset takes the third one back
to 8 ms.  The advertisements announce their schedules. -/
theorem trickle_invariant_after_reset :
    ∃ (ms : List (Moment Generator)) (x : Moment Generator) (n : Node Generator) (d d' : Dodag),
      record .millis grownAndReset (.new (.fixed 0) .zero true) = .ok (ms ++ [x], n) ∧
      n.outbox.toList = [.dio 1 ⟨.ofTicks 4, .ofTicks 8, .ofTicks 8⟩,
        .dio 1 ⟨.ofTicks 8, .ofTicks 16, .ofTicks 16⟩] ∧
      x.before.dodags.find? 1 = some d ∧ x.after.dodags.find? 1 = some d' ∧ d.exponent = 5 ∧
      x.resets 1 = true ∧ d'.exponent = 3 := by
  have hrun (ms : List (Moment Generator)) (n : Node Generator)
      (h : record .millis grownAndReset (.new (.fixed 0) .zero true) = .ok (ms, n)) :
      Run .millis (.new (.fixed 0) .zero true) ms n := Run.start.record h
  refine ⟨[_, _, _, _, _, _], _, _, _, _, rfl, rfl, rfl, rfl, rfl, rfl, ?_⟩
  have hlast := (trickle_invariant (hrun ([_, _, _, _, _, _] ++ [_]) _ rfl)).2 _
    (List.mem_append_right _ List.mem_cons_self)
  exact (hlast.2 1 _ _ rfl rfl).2 rfl

end Node

end TrickleNet

import Mathlib
import TrickleNet.Proofs.Steps
/-!
# Intervals

An interval lasts at least one tick, and with a larger exponent it is no shorter
(`intervalSpan_mono`).  Every split that is drawn divides its interval (`Split.draw_divides`): the
listen phase takes at least half of it and leaves at least one tick.  `Dodag.Paced` is what a
trickle timer that has begun an interval keeps: the exponent within its limits, and the split of the
next interval drawn for the exponent that one will have.  So the interval after a finished one has
the split that was announced (`Dodag.Paced.begin_grow`).
-/

namespace TrickleNet

/-- The split divides a span of time, and at least half of it is the listen phase. -/
structure Split.Divides (s : Split) (span : Span) : Prop where
  total : s.listen.ticks + s.jitter.ticks = span.ticks
  half_le : span.ticks / 2 ≤ s.listen.ticks
  listen_lt : s.listen.ticks < span.ticks

theorem Split.Divides.jitter_pos {s : Split} {span : Span} (h : s.Divides span) :
    1 ≤ s.jitter.ticks := by
  have htotal := h.total
  have hlt := h.listen_lt
  omega

/-- An interval is cut to whole ticks, except that it lasts one at least. -/
theorem ticks_intervalSpan (p : Platform) (exponent : Nat) :
    (intervalSpan p exponent).ticks =
      max 1 (min (intervalMillis exponent * p.ticksPerSecond) maxTicks / 1000) := by
  have hspan : (Span.ofMillis (intervalMillis exponent) p.ticksPerSecond).ticks =
      min (intervalMillis exponent * p.ticksPerSecond) maxTicks / 1000 :=
    Nat.min_eq_left (Nat.le_trans (Nat.div_le_self _ _) (Nat.min_le_right _ _))
  unfold intervalSpan
  dsimp only
  split
  · rename_i h
    rw [h, Span.ticks_zero] at hspan
    rw [← hspan]
    rfl
  · rename_i h
    rw [Span.ext_iff, Span.ticks_zero] at h
    rw [← hspan]
    omega

/-- An interval lasts at least one tick. -/
theorem intervalSpan_pos (p : Platform) (exponent : Nat) : 1 ≤ (intervalSpan p exponent).ticks := by
  rw [ticks_intervalSpan]
  exact le_max_left _ _

theorem intervalMillis_mono {exponent larger : Nat} (h : exponent ≤ larger) :
    intervalMillis exponent ≤ intervalMillis larger :=
  min_le_min_right _ (Nat.pow_le_pow_right Nat.two_pos h)

/-- Clamping and cutting keep the order of the exponents. -/
theorem intervalSpan_mono (p : Platform) {exponent larger : Nat} (h : exponent ≤ larger) :
    intervalSpan p exponent ≤ intervalSpan p larger := by
  rw [Span.le_iff, ticks_intervalSpan, ticks_intervalSpan]
  refine max_le_max_left _ (Nat.div_le_div_right (min_le_min_right _ ?_))
  exact Nat.mul_le_mul_right _ (intervalMillis_mono h)

section Draw

variable {ρ : Type} [RandomSource ρ]

/-- A draw gives a split that divides the interval, whatever is drawn. -/
theorem Split.draw_divides (p : Platform) (exponent : Nat) (source : ρ) :
    ∃ s source', Split.draw p exponent source = .ok (s, source') ∧
      s.Divides (intervalSpan p exponent) := by
  have hpos := intervalSpan_pos p exponent
  have hle := (intervalSpan p exponent).ticks_le
  rcases hdraw : RandomSource.draw source 0 (intervalSpan p exponent).half.ticks with
    ⟨offset, source'⟩
  have hlt : offset < (intervalSpan p exponent).half.ticks ∨
      (intervalSpan p exponent).half.ticks = 0 ∧ offset = 0 := by
    rcases Nat.eq_zero_or_pos (intervalSpan p exponent).half.ticks with hzero | hhalf
    · have hempty := RandomSource.draw_empty source 0 _ (Nat.le_of_eq hzero)
      rw [hdraw] at hempty
      exact .inr ⟨hzero, hempty⟩
    · have hlt := RandomSource.draw_lt source 0 _ hhalf
      rw [hdraw] at hlt
      exact .inl hlt
  rw [Span.ticks_half] at hlt
  have hlisten : ((intervalSpan p exponent).half + Span.ofTicks offset).ticks =
      (intervalSpan p exponent).ticks / 2 + offset := by
    rw [Span.ticks_add, Span.ticks_half, Span.ticks_ofTicks]
    omega
  have hsub :
      (intervalSpan p exponent).sub? ((intervalSpan p exponent).half + Span.ofTicks offset) =
        .ok (intervalSpan p exponent - ((intervalSpan p exponent).half + Span.ofTicks offset)) := by
    rw [Span.sub?_eq_ok_iff, Span.ticks_sub, hlisten]
    omega
  refine ⟨⟨(intervalSpan p exponent).half + Span.ofTicks offset,
    intervalSpan p exponent - ((intervalSpan p exponent).half + Span.ofTicks offset)⟩, source', ?_,
    ?_, ?_, ?_⟩
  · simp only [Split.draw, hdraw, hsub]
    rfl
  all_goals
    dsimp only
    rw [hlisten]
  · rw [Span.ticks_sub, hlisten]
    omega
  · omega
  · omega

/-- At any rate of the clock an interval lasts at least a tick, and no less with a larger exponent.
Whatever the source is, a split is drawn: no sum is clamped and no difference faults, the two phases
add up to the interval, the listen phase takes at least half of it, and the jitter phase has a tick
at least.  All that this asks of a source is that a draw lies in its range or is the lower end of an
empty one, which holds for each of the generators in any state. -/
theorem Split.draws_are_exact (p : Platform) (exponent : Nat) (source : ρ) :
    1 ≤ (intervalSpan p exponent).ticks ∧
    (∀ larger, exponent ≤ larger → intervalSpan p exponent ≤ intervalSpan p larger) ∧
    (∃ s source', Split.draw p exponent source = .ok (s, source') ∧
      s.total = intervalSpan p exponent ∧
      s.listen.ticks + s.jitter.ticks = (intervalSpan p exponent).ticks ∧
      (intervalSpan p exponent).ticks / 2 ≤ s.listen.ticks ∧
      s.listen.ticks ≤ (intervalSpan p exponent).ticks - 1 ∧
      1 ≤ s.jitter.ticks) ∧
    ∀ (g : Generator) (lo hi : Nat),
      (lo < hi → lo ≤ (g.draw lo hi).1 ∧ (g.draw lo hi).1 < hi) ∧
      (hi ≤ lo → (g.draw lo hi).1 = lo) := by
  refine ⟨intervalSpan_pos p exponent, fun larger h => intervalSpan_mono p h, ?_, fun g lo hi => ?_⟩
  · obtain ⟨s, source', hdraw, hs⟩ := Split.draw_divides p exponent source
    have htotal : s.total = intervalSpan p exponent := by
      have hle := (intervalSpan p exponent).ticks_le
      rw [Split.total, Span.ext_iff, Span.ticks_add, hs.total]
      exact Nat.min_eq_left hle
    exact ⟨s, source', hdraw, htotal, hs.total, hs.half_le, Nat.le_sub_one_of_lt hs.listen_lt,
      hs.jitter_pos⟩
  · exact ⟨fun h => ⟨RandomSource.le_draw g lo hi, RandomSource.draw_lt g lo hi h⟩,
      RandomSource.draw_empty g lo hi⟩

/-- With a clock that is too slow for the interval there is nothing to draw from, and the one tick
is the jitter phase. -/
theorem Split.draws_are_exact_on_a_slow_clock :
    (intervalSpan { Platform.simulated with ticksPerSecond := 1 } 0).ticks = 1 ∧
      ∃ s source', Split.draw { Platform.simulated with ticksPerSecond := 1 } 0
        (Generator.highBits 7) = .ok (s, source') ∧ s.listen.ticks = 0 ∧ s.jitter.ticks = 1 := by
  have hspan : (intervalSpan { Platform.simulated with ticksPerSecond := 1 } 0).ticks = 1 := by
    decide
  obtain ⟨-, -, ⟨s, source', hdraw, -, hsum, -, hlisten, hjitter⟩, -⟩ :=
    Split.draws_are_exact { Platform.simulated with ticksPerSecond := 1 } 0 (Generator.highBits 7)
  rw [hspan] at hsum hlisten
  exact ⟨hspan, s, source', hdraw, Nat.le_zero.1 hlisten, by omega⟩

end Draw

namespace Dodag

/-- What a trickle timer keeps once an interval has begun. -/
structure Paced (p : Platform) (d : Dodag) : Prop where
  valid : d.params.Valid
  min_le : d.params.minExponent.toNat ≤ d.exponent
  le_max : d.exponent ≤ d.params.maxExponent
  phase : d.phase ≠ .idle
  /-- The interval ends later than its listen phase. -/
  jitter_pos : 1 ≤ d.jitter.ticks
  /-- The split of the next interval is drawn. -/
  pending : ∃ s : Split, d.pending = some ⟨d.nextExponent, s⟩ ∧
    s.Divides (intervalSpan p d.nextExponent)

variable {p : Platform} {d d' : Dodag} {split : Split}

/-- The interval after this one has the exponent for which its split was drawn. -/
theorem Paced.exponent_grow (h : d.Paced p) : d.grow.exponent = d.nextExponent := by
  have hmax := h.valid.maxExponent_lt
  have hle := h.le_max
  simp only [grow, nextExponent, TrickleParams.exponentLimit] at *
  split
  · rename_i hlt
    dsimp only
    omega
  · omega

theorem Paced.decided {counts : AdvertCounts} (h : d.Paced p) :
    Paced p { d with phase := .jitter, counts } :=
  ⟨h.valid, h.min_le, h.le_max, by simp, h.jitter_pos, h.pending⟩

theorem grow_eq (d : Dodag) : d.grow = { d with exponent := d.grow.exponent } := by
  unfold grow
  split <;> rfl

variable {ρ : Type} [RandomSource ρ] {source source' : ρ}

/-- An interval that begins with a sound split leaves the timer paced. -/
theorem paced_begin (h : d.begin p source = .ok (split, d', source')) (hvalid : d.params.Valid)
    (hmin : d.params.minExponent.toNat ≤ d.exponent) (hmax : d.exponent ≤ d.params.maxExponent)
    (hsplit : 1 ≤ split.jitter.ticks) : d'.Paced p := by
  obtain ⟨middle, next, -, hnext, -, -, rfl⟩ := begin_eq_ok h
  obtain ⟨s, source'', hs, hdivides⟩ := Split.draw_divides p d.nextExponent middle
  rw [hs] at hnext
  cases hnext
  exact ⟨hvalid, hmin, hmax, by simp, hsplit, next, rfl, hdivides⟩

/-- The shortest interval leaves the timer paced.  Nothing is announced for it, so its split is a
new one. -/
theorem paced_restart (h : d.restart.begin p source = .ok (split, d', source'))
    (hvalid : d.params.Valid) : d'.Paced p := by
  obtain ⟨middle, next, hsplit, -⟩ := begin_eq_ok h
  obtain ⟨s, source'', hs, hdivides⟩ := Split.draw_divides p d.params.minExponent.toNat source
  obtain ⟨rfl, -⟩ := Prod.mk.inj (Except.ok.inj (hs.symm.trans hsplit))
  have hle : d.params.minExponent.toNat ≤ d.params.maxExponent := by
    rw [hvalid.maxExponent_eq]
    exact Nat.le_add_right _ _
  exact paced_begin h hvalid (Nat.le_refl _) hle hdivides.jitter_pos

/-- The interval after a finished one has the split that was announced. -/
theorem Paced.begin_grow (hd : d.Paced p)
    (h : d.grow.begin p source = .ok (split, d', source')) :
    d.pending = some ⟨d.nextExponent, split⟩ ∧ split.Divides (intervalSpan p d.nextExponent) ∧
      d'.Paced p ∧ d'.exponent = d.nextExponent := by
  obtain ⟨s, hs, hdivides⟩ := hd.pending
  obtain ⟨middle, next, hcurrent, hnext, -, -, hd'⟩ := begin_eq_ok h
  have hexponent := hd.exponent_grow
  obtain rfl : s = split := by
    simp only [currentSplit] at hcurrent
    rw [grow_eq, hs] at hcurrent
    simp only [hexponent, if_true, Except.ok.injEq, Prod.mk.injEq] at hcurrent
    exact hcurrent.1
  have hparams : d.grow.params = d.params := by rw [grow_eq]
  have hmax : d.nextExponent ≤ d.params.maxExponent := Nat.min_le_right _ _
  have hmin : d.params.minExponent.toNat ≤ d.nextExponent := by
    have hle := hd.min_le
    have hle' := hd.le_max
    have hlt := hd.valid.maxExponent_lt
    simp only [nextExponent, TrickleParams.exponentLimit] at *
    omega
  refine ⟨hs, hdivides, paced_begin h ?_ ?_ ?_ hdivides.jitter_pos, ?_⟩
  · rw [hparams]
    exact hd.valid
  · rw [hparams, hexponent]
    exact hmin
  · rw [hparams, hexponent]
    exact hmax
  · rw [hd']
    exact hexponent

end Dodag

end TrickleNet

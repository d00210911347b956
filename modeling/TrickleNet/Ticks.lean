import TrickleNet.Fault
/-!
# Time in clock ticks

`Span` is a length of time and `Instant` a point in time, both counted in ticks of the platform
clock and both held in 64 bits.  Sums clamp at the largest value and differences written `-` stop
at zero; `Instant.since?` and `Span.sub?` are the differences that insist on their order.

Each operation has a lemma that gives its ticks as a natural number, so that questions about time
are questions for `omega`.
-/

namespace TrickleNet

/-- The largest tick count a clock can hold. -/
abbrev maxTicks : Nat := 18446744073709551615

/-- A length of time in clock ticks. -/
@[ext] structure Span where
  /-- The number of ticks. -/
  ticks : Nat
  /-- The count fits the clock. -/
  ticks_le : ticks ≤ maxTicks := by decide
deriving DecidableEq, Repr

/-- A point in time, in clock ticks since boot. -/
@[ext] structure Instant where
  /-- The number of ticks since boot. -/
  ticks : Nat
  /-- The count fits the clock. -/
  ticks_le : ticks ≤ maxTicks := by decide
deriving DecidableEq, Repr

namespace Span

/-- The span of `n` ticks, clamped to the largest one. -/
def ofTicks (n : Nat) : Span := ⟨min n maxTicks, Nat.min_le_right _ _⟩

/-- The empty span. -/
def zero : Span := ⟨0, by decide⟩

instance : Inhabited Span := ⟨zero⟩

/-- `ms` milliseconds of a clock with `rate` ticks a second, rounded down after the product was
clamped. -/
def ofMillis (ms rate : Nat) : Span := ofTicks (min (ms * rate) maxTicks / 1000)

/-- `secs` seconds of a clock with `rate` ticks a second, clamped. -/
def ofSecs (secs rate : Nat) : Span := ofTicks (secs * rate)

/-- Half the span, rounded down. -/
def half (a : Span) : Span := ofTicks (a.ticks / 2)

/-- Sums clamp at the longest span. -/
instance : Add Span := ⟨fun a b => ofTicks (a.ticks + b.ticks)⟩

/-- Differences stop at zero. -/
instance : Sub Span := ⟨fun a b => ofTicks (a.ticks - b.ticks)⟩

/-- The difference `a - b`, which faults when `b` is the longer span. -/
def sub? (a b : Span) : Checked Span :=
  if b.ticks ≤ a.ticks then .ok (a - b) else .error .subOverflow

instance : LE Span := ⟨fun a b => a.ticks ≤ b.ticks⟩

instance : LT Span := ⟨fun a b => a.ticks < b.ticks⟩

instance (a b : Span) : Decidable (a ≤ b) := inferInstanceAs (Decidable (a.ticks ≤ b.ticks))

instance (a b : Span) : Decidable (a < b) := inferInstanceAs (Decidable (a.ticks < b.ticks))

variable {a b c : Span}

@[simp] theorem ticks_ofTicks (n : Nat) : (ofTicks n).ticks = min n maxTicks := rfl

@[simp] theorem ticks_zero : zero.ticks = 0 := rfl

@[simp] theorem ticks_add : (a + b).ticks = min (a.ticks + b.ticks) maxTicks := rfl

@[simp] theorem ticks_sub : (a - b).ticks = a.ticks - b.ticks := by
  have := a.ticks_le
  show min (a.ticks - b.ticks) maxTicks = _
  omega

@[simp] theorem ticks_half : a.half.ticks = a.ticks / 2 := by
  have := a.ticks_le
  show min (a.ticks / 2) maxTicks = _
  omega

theorem le_iff : a ≤ b ↔ a.ticks ≤ b.ticks := Iff.rfl

theorem lt_iff : a < b ↔ a.ticks < b.ticks := Iff.rfl

theorem sub?_eq_ok_iff : a.sub? b = .ok c ↔ b.ticks ≤ a.ticks ∧ c.ticks = a.ticks - b.ticks := by
  unfold sub?
  split
  · rename_i h
    simp only [Except.ok.injEq, h, true_and, Span.ext_iff, ticks_sub]
    omega
  · simp only [reduceCtorEq, false_iff]
    omega

end Span

namespace Instant

/-- The instant `n` ticks after boot, clamped to the last one. -/
def ofTicks (n : Nat) : Instant := ⟨min n maxTicks, Nat.min_le_right _ _⟩

/-- The moment of boot. -/
def zero : Instant := ⟨0, by decide⟩

/-- The last instant there is. -/
def last : Instant := ⟨maxTicks, Nat.le_refl _⟩

instance : Inhabited Instant := ⟨zero⟩

/-- The instant a span later, clamped to the last one. -/
instance : HAdd Instant Span Instant := ⟨fun t a => ofTicks (t.ticks + a.ticks)⟩

/-- The time from the second instant to the first, zero if the second one is later. -/
instance : HSub Instant Instant Span := ⟨fun t u => Span.ofTicks (t.ticks - u.ticks)⟩

/-- The time from `u` to `t`, which faults when `u` is the later one. -/
def since? (t u : Instant) : Checked Span :=
  if u.ticks ≤ t.ticks then .ok (t - u) else .error .subOverflow

instance : LE Instant := ⟨fun t u => t.ticks ≤ u.ticks⟩

instance : LT Instant := ⟨fun t u => t.ticks < u.ticks⟩

instance (t u : Instant) : Decidable (t ≤ u) := inferInstanceAs (Decidable (t.ticks ≤ u.ticks))

instance (t u : Instant) : Decidable (t < u) := inferInstanceAs (Decidable (t.ticks < u.ticks))

/-- The later of two instants. -/
def later (t u : Instant) : Instant := if t ≤ u then u else t

variable {t u : Instant} {a : Span}

@[simp] theorem ticks_ofTicks (n : Nat) : (ofTicks n).ticks = min n maxTicks := rfl

@[simp] theorem ticks_zero : zero.ticks = 0 := rfl

@[simp] theorem ticks_last : last.ticks = maxTicks := rfl

@[simp] theorem ticks_add : (t + a).ticks = min (t.ticks + a.ticks) maxTicks := rfl

@[simp] theorem ticks_sub : (t - u).ticks = t.ticks - u.ticks := by
  have := t.ticks_le
  show min (t.ticks - u.ticks) maxTicks = _
  omega

theorem le_iff : t ≤ u ↔ t.ticks ≤ u.ticks := Iff.rfl

theorem lt_iff : t < u ↔ t.ticks < u.ticks := Iff.rfl

@[simp] theorem ticks_later : (t.later u).ticks = max t.ticks u.ticks := by
  unfold later
  split <;> simp_all only [le_iff] <;> omega

theorem since?_eq_ok_iff :
    t.since? u = .ok a ↔ u.ticks ≤ t.ticks ∧ a.ticks = t.ticks - u.ticks := by
  unfold since?
  split
  · rename_i h
    simp only [Except.ok.injEq, h, true_and, Span.ext_iff, ticks_sub]
    omega
  · simp only [reduceCtorEq, false_iff]
    omega

end Instant

end TrickleNet

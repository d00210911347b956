/-!
# Random draws

A `RandomSource` hands out natural numbers from half-open ranges.  Its two laws are all that the
protocol relies on: a draw lies in its range, and an empty range gives its lower end.

`Generator` is the source used in practice, a linear congruential generator on 64 bits, whose
state is reduced either by its remainder or by its high bits; a third form replays one fixed
offset.
-/

namespace TrickleNet

/-- Sources of random draws. -/
class RandomSource (ρ : Type) where
  /-- A draw from `lo` up to but not including `hi`, and the source afterwards. -/
  draw : ρ → (lo hi : Nat) → Nat × ρ
  /-- No draw lies below its range. -/
  le_draw : ∀ (r : ρ) (lo hi : Nat), lo ≤ (draw r lo hi).1
  /-- No draw lies above its range, unless that is empty. -/
  draw_lt : ∀ (r : ρ) (lo hi : Nat), lo < hi → (draw r lo hi).1 < hi
  /-- An empty range gives its lower end. -/
  draw_empty : ∀ (r : ρ) (lo hi : Nat), hi ≤ lo → (draw r lo hi).1 = lo

/-- One step of the linear congruential generator, modulo `2 ^ 64`. -/
def lcgStep (state : UInt64) : UInt64 := state * 6364136223846793005 + 1

/-- A reproducible source of draws. -/
inductive Generator where
  /-- The remainder of the state modulo the width; an empty range leaves the state alone. -/
  | remainder (state : UInt64)
  /-- The remainder of the upper 31 bits, whose period is longer; every draw moves the state. -/
  | highBits (state : UInt64)
  /-- The same offset into every range, modulo its width. -/
  | fixed (offset : Nat)
deriving DecidableEq, Repr

namespace Generator

/-- The seed of a generator that was given none. -/
def standard : Generator := .remainder 12345

/-- The number from which the next draw takes its remainder. -/
def raw : Generator → Nat
  | remainder state => (lcgStep state).toNat
  | highBits state => (lcgStep state >>> 33).toNat
  | fixed offset => offset

/-- The generator after a draw from a range that is empty or not. -/
def advance (isEmpty : Bool) : Generator → Generator
  | remainder state => if isEmpty then remainder state else remainder (lcgStep state)
  | highBits state => highBits (lcgStep state)
  | fixed offset => fixed offset

/-- Draws from `lo` up to but not including `hi`. -/
def draw (g : Generator) (lo hi : Nat) : Nat × Generator :=
  (if lo < hi then lo + g.raw % (hi - lo) else lo, g.advance (hi ≤ lo))

instance : RandomSource Generator where
  draw := draw
  le_draw g lo hi := by
    simp only [draw]
    split <;> omega
  draw_lt g lo hi h := by
    have := Nat.mod_lt g.raw (Nat.sub_pos_of_lt h)
    simp only [draw, h, if_true]
    omega
  draw_empty g lo hi h := by
    simp only [draw]
    split <;> omega

end Generator

end TrickleNet

import TrickleNet.Draw
import TrickleNet.Platform
/-!
# Splitting an interval

A trickle interval lasts `2 ^ e` milliseconds, at least one tick.  One random draw splits it into a
listen phase, at least half of the interval, and a jitter phase, the rest.
-/

namespace TrickleNet

/-- The length of an interval in milliseconds, clamped to 64 bits. -/
def intervalMillis (exponent : Nat) : Nat := min (Nat.pow 2 exponent) maxTicks

/-- The length of an interval in ticks, at least one. -/
def intervalSpan (p : Platform) (exponent : Nat) : Span :=
  let nominal := Span.ofMillis (intervalMillis exponent) p.ticksPerSecond
  if nominal = .zero then .ofTicks 1 else nominal

/-- The two phases of an interval. -/
structure Split where
  /-- The phase before the decision whether to advertise. -/
  listen : Span := .zero
  /-- The phase after it. -/
  jitter : Span := .zero
deriving DecidableEq, Repr

namespace Split

/-- The length of the whole interval. -/
def total (s : Split) : Span := s.listen + s.jitter

variable {ρ : Type} [RandomSource ρ]

/-- Splits the interval of an exponent with one draw. -/
def draw (p : Platform) (exponent : Nat) (source : ρ) : Checked (Split × ρ) := do
  let nominal := intervalSpan p exponent
  let (offset, source) := RandomSource.draw source 0 nominal.half.ticks
  let listen := nominal.half + Span.ofTicks offset
  let jitter ← nominal.sub? listen
  return (⟨listen, jitter⟩, source)

end Split

end TrickleNet

import TrickleNet.Draw
import TrickleNet.Ticks
/-!
# Radio links

A `Link` loses frames at some rate, delays the others, and adds a random extra delay of at most its
jitter.  Rates are floating-point numbers; `clampUnit` brings a rate into the unit interval and
leaves what is not a number alone.
-/

namespace TrickleNet

/-- The nearest number of the unit interval. -/
def clampUnit (x : Float) : Float := if x < 0.0 then 0.0 else if 1.0 < x then 1.0 else x

/-- The number in `[0, 1)` that a generator state stands for: its upper 53 bits as a fraction. -/
def unitFraction (state : UInt64) : Float := (state >>> 11).toFloat / 9007199254740992.0

/-- A radio link between two nodes. -/
structure Link where
  /-- The share of frames that is lost. -/
  loss : Float := 0.0
  /-- The delay of every frame. -/
  delay : Span := .ofTicks 2
  /-- The largest extra delay of a frame. -/
  jitter : Span := .zero
  /-- Whether the link is up. -/
  active : Bool := true

namespace Link

instance : Inhabited Link := ⟨{}⟩

/-- The link with another loss rate, brought into the unit interval. -/
def withLoss (l : Link) (rate : Float) : Link := { l with loss := clampUnit rate }

/-- Whether a frame is lost.  A link without loss takes no draw. -/
def losesFrame (l : Link) (state : UInt64) : Bool × UInt64 :=
  if 0.0 < l.loss then (unitFraction (lcgStep state) < l.loss, lcgStep state) else (false, state)

/-- The extra delay of a frame.  A link without jitter takes no draw; otherwise the draw is scaled
by one more than the jitter, which must fit its word, and clamped to the jitter. -/
def extraDelay (l : Link) (state : UInt64) : Checked (Span × UInt64) :=
  if l.jitter.ticks = 0 then .ok (.zero, state)
  else do
    let width ← addChecked wordLimit64 l.jitter.ticks 1
    let scaled := (unitFraction (lcgStep state) * (UInt64.ofNat width).toFloat).toUInt64
    return (.ofTicks (min scaled.toNat l.jitter.ticks), lcgStep state)

end Link

end TrickleNet

import TrickleNet.Counters
import TrickleNet.Message
import TrickleNet.Split
import TrickleNet.Table
import TrickleNet.Watch
/-!
# One topology instance

A `Dodag` is what a node keeps of a topology instance it belongs to: the state of the trickle
timer, the candidate parents with their watches, and the preferred parent.

The split of the next interval is drawn one interval ahead, because each advertisement announces
it.  `Dodag.begin` uses that split when the interval has the exponent it was drawn for, and draws
another one otherwise.
-/

namespace TrickleNet

/-- Where the trickle timer is in its interval. -/
inductive Phase where
  /-- No interval has started. -/
  | idle
  /-- The decision whether to advertise lies ahead. -/
  | listen
  /-- The decision was taken, and the interval runs out. -/
  | jitter
deriving DecidableEq, Repr

/-- A split that was drawn for a later interval. -/
structure PendingSplit where
  /-- The exponent of the interval it was drawn for. -/
  exponent : Nat
  /-- The split. -/
  split : Split
deriving DecidableEq, Repr

/-- A node's part in one topology instance. -/
structure Dodag where
  /-- The parameters of the instance. -/
  params : TrickleParams
  /-- The exponent of the current interval. -/
  exponent : Nat
  /-- How many consistent advertisements were heard in the interval, clamped to a byte. -/
  heard : Nat := 0
  /-- Where the timer is in the interval. -/
  phase : Phase := .idle
  /-- The jitter phase of the current interval. -/
  jitter : Span := .zero
  /-- The split of the next interval. -/
  pending : Option PendingSplit := none
  /-- The preferred parent. -/
  preferred : Option Address := none
  /-- The candidate parents. -/
  parents : Table Address Watch := ∅
  /-- The counters of the instance. -/
  counts : AdvertCounts := {}

namespace Dodag

/-- An instance in which no interval has started. -/
def new (params : TrickleParams) : Dodag where
  params
  exponent := params.minExponent.toNat

/-- The exponent of the interval after the current one. -/
def nextExponent (d : Dodag) : Nat := min (min (d.exponent + 1) 255) d.params.maxExponent

/-- The schedule that an advertisement sent now announces: the jitter phase of this interval, then
the split of the next one. -/
def lookahead (d : Dodag) : Lookahead :=
  let next := (d.pending.map PendingSplit.split).getD {}
  { delay := d.jitter, listen := next.listen, jitter := next.jitter }

/-- Notes one more consistent advertisement. -/
def hear (d : Dodag) : Dodag := { d with heard := min (d.heard + 1) 255 }

/-- Back to the shortest interval, which is still to begin. -/
def restart (d : Dodag) : Dodag :=
  { d with heard := 0, exponent := d.params.minExponent.toNat, pending := none }

/-- The interval after a finished one is twice as long, up to the limit. -/
def grow (d : Dodag) : Dodag :=
  if d.exponent < d.params.maxExponent then { d with exponent := d.exponent + 1 } else d

variable {ρ : Type} [RandomSource ρ]

/-- The split of the interval about to begin: the announced one if it was drawn for this exponent,
a new one otherwise. -/
def currentSplit (d : Dodag) (p : Platform) (source : ρ) : Checked (Split × ρ) :=
  match d.pending with
  | some next => if next.exponent = d.exponent then .ok (next.split, source)
    else Split.draw p d.exponent source
  | none => Split.draw p d.exponent source

/-- Begins an interval at the current exponent: its listen phase starts, what was heard is added
up, and the split of the interval after it is drawn. -/
def begin (d : Dodag) (p : Platform) (source : ρ) : Checked (Split × Dodag × ρ) := do
  let (split, source) ← d.currentSplit p source
  let intervals ← countUp d.counts.intervals
  let received ← addChecked wordLimit32 d.counts.received d.heard
  let (next, source) ← Split.draw p d.nextExponent source
  let d := { d with
    jitter := split.jitter
    phase := .listen
    heard := 0
    pending := some ⟨d.nextExponent, next⟩
    counts := { d.counts with intervals, received } }
  return (split, d, source)

end Dodag

end TrickleNet

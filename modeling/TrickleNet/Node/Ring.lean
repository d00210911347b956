import TrickleNet.Node.Advertise
import TrickleNet.Node.Report
import TrickleNet.Node.Track
import TrickleNet.Node.Upkeep
/-!
# Letting alarms ring

`Node.handleTimer` lets every alarm ring that is due, in the order of their deadlines.  Each one is
handled as of its own deadline, so alarms that are armed again keep their cadence however late the
call comes.

An alarm that rings may arm alarms that are due as well.  On a platform whose delays are not zero
no alarm rings more than twice in one tick, so `Node.ringBudget` bounds the number of alarms that
ring in one call; a call that exceeds it stops with `Fault.stalled`.
-/

namespace TrickleNet.Node

variable {ρ : Type} [RandomSource ρ]

/-- Handles an alarm that rings, as of its deadline. -/
def handleRing (p : Platform) (n : Node ρ) (r : Ring) : Checked (Node ρ) :=
  match r.purpose with
  | .upkeep => upkeepRings p n
  | .advertise i => advertiseRings p n i r.deadline
  | .report i => reportRings p n i r.deadline
  | .watch i parent => watchRings p n i parent r.deadline
  | .probe i parent => probeRings p n i parent r.deadline

/-- Lets the first alarm ring that is due, if there is one. -/
def ringNext (p : Platform) (n : Node ρ) (now : Instant) : Option (Checked (Node ρ)) :=
  (n.alarms.ring? now).map fun (r, alarms) => handleRing p { n with alarms } r

/-- Lets at most `budget` alarms ring, which must be all that are due. -/
def ringAll (p : Platform) (now : Instant) : (budget : Nat) → Node ρ → Checked (Node ρ)
  | 0, n => if (n.alarms.due? now).isSome then .error .stalled else .ok n
  | budget + 1, n => match ringNext p n now with
    | none => .ok n
    | some next => do ringAll p now budget (← next)

/-- A bound on the alarms that ring up to `now`: each instance has at most four, the node has one
more, and each rings at most twice in a tick. -/
def ringBudget (n : Node ρ) (now : Instant) : Nat :=
  2 * (1 + 4 * n.dodags.size) * (now.ticks + 1)

/-- Lets every alarm ring that is due at `now`. -/
def handleTimer (p : Platform) (n : Node ρ) (now : Instant) : Checked (Node ρ) :=
  ringAll p now (n.ringBudget now) n

end TrickleNet.Node

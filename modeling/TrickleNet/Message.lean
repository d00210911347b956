import TrickleNet.Address
import TrickleNet.Params
import TrickleNet.Ticks
/-!
# Messages

What nodes say to each other and what their owner asks of them.  A DIO advertises a topology
instance and carries a `Lookahead`, the sender's schedule for its next interval; a DIS asks for
advertisements; a DAO reports reachability to a parent.
-/

namespace TrickleNet

/-- The schedule of the sender's next interval, as an advertisement announces it. -/
structure Lookahead where
  /-- The time from the advertisement to the start of the next interval. -/
  delay : Span := .zero
  /-- The listen phase of the next interval. -/
  listen : Span := .zero
  /-- The jitter phase of the next interval. -/
  jitter : Span := .zero
deriving DecidableEq, Repr

/-- A control message. -/
inductive Control where
  /-- An advertisement of a topology instance to all neighbours. -/
  | dio (inst : InstanceId) (lookahead : Lookahead)
  /-- A request for advertisements, to one neighbour or to all. -/
  | dis (target : Option Address)
  /-- A report of reachability to a parent. -/
  | dao (inst : InstanceId) (parent : Address) (lifetime : UInt8)
deriving DecidableEq, Repr

/-- A request to a node, queued until its run loop gets to it. -/
inductive Command where
  /-- Restart the trickle timer; unless forced, only if the interval has grown. -/
  | resetDio (inst : InstanceId) (force : Bool)
  /-- Report reachability soon. -/
  | scheduleDao (inst : InstanceId)
  /-- A consistent advertisement was heard. -/
  | dioConsistent (inst : InstanceId)
  /-- An advertisement was received from a neighbour. -/
  | dioReceived (inst : InstanceId) (sender : Address) (lookahead : Lookahead)
  /-- Prefer this parent, or none. -/
  | setPreferred (inst : InstanceId) (parent : Option Address)
  /-- Ask the preferred parent for an advertisement. -/
  | solicit (inst : InstanceId)
  /-- Restart the maintenance ticker. -/
  | restartUpkeep
deriving DecidableEq, Repr

end TrickleNet

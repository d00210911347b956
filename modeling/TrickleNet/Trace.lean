import TrickleNet.Address
import TrickleNet.Mailbox
import TrickleNet.Params
import TrickleNet.Ticks
/-!
# Traces

A node writes what it decides into a trace of bounded length; what does not fit is lost.
-/

namespace TrickleNet

/-- A decision of a node. -/
inductive TraceEvent where
  /-- A trickle interval started. -/
  | intervalStarted (inst : InstanceId) (exponent : Nat) (listen jitter : Span)
  /-- An advertisement was handed to the transport. -/
  | dioSent (inst : InstanceId)
  /-- An advertisement was left out as redundant. -/
  | dioSuppressed (inst : InstanceId) (heard : Nat) (redundancy : UInt8)
  /-- An advertisement was postponed until the link-local address is usable. -/
  | dioPostponed (inst : InstanceId)
  /-- The trickle timer went back to the shortest interval. -/
  | trickleReset (inst : InstanceId) (forced : Bool)
  /-- A report was asked for while one was pending. -/
  | daoAlreadyScheduled (inst : InstanceId)
  /-- A report was scheduled. -/
  | daoScheduled (inst : InstanceId) (delay : Span)
  /-- A report was postponed until the link-local address is usable. -/
  | daoPostponed (inst : InstanceId)
  /-- A report was handed to the transport. -/
  | daoSent (inst : InstanceId) (parent : Address)
  /-- A report was due and no parent was preferred. -/
  | noDaoParent (inst : InstanceId)
  /-- All neighbours were solicited. -/
  | disBroadcast
  /-- A reception window was predicted. -/
  | windowPredicted (inst : InstanceId) (opens closes : Instant)
  /-- A reception window closed in silence. -/
  | windowMissed (inst : InstanceId) (parent : Address)
  /-- A parent was solicited. -/
  | probeSent (inst : InstanceId) (parent : Address)
  /-- An advertisement came after it was expected. -/
  | latencyMeasured (inst : InstanceId) (latency : Span)
  /-- An advertisement came early and did not match the window. -/
  | dioEarly (inst : InstanceId) (earlyBy : Span)
  /-- A parent that had missed its window was heard again. -/
  | parentRecovered (inst : InstanceId) (parent : Address)
  /-- An advertisement answered a solicitation. -/
  | probeAnswered (inst : InstanceId) (residual : Span)
  /-- A queued command was refused. -/
  | commandFailed (refusal : Refusal)
deriving DecidableEq, Repr

/-- How many events a trace holds. -/
abbrev traceCapacity : Nat := 64

/-- The events not read yet. -/
abbrev Trace := Mailbox traceCapacity TraceEvent

end TrickleNet

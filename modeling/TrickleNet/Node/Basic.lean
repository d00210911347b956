import TrickleNet.Alarm
import TrickleNet.Dodag
import TrickleNet.Mailbox
import TrickleNet.Trace
/-!
# Nodes

A `Node` is the timing core of a router: its alarms, the topology instances it belongs to, and the
queues through which it talks to the world.  This file holds the state and the few steps that the
other files share; each of these files describes one of the node's activities:

* `TrickleNet.Node.Membership`: joining and leaving instances, choosing parents;
* `TrickleNet.Node.Advertise`: the trickle timer;
* `TrickleNet.Node.Report`: reports of reachability;
* `TrickleNet.Node.Track`: watching and probing the preferred parent;
* `TrickleNet.Node.Upkeep`: the maintenance ticker;
* `TrickleNet.Node.Ring`: letting the alarms that are due ring;
* `TrickleNet.Node.Operation`: all requests to a node as one type;
* `TrickleNet.Node.Loop`: the run loop.

The platform is not part of the state: every step that needs it takes it as an argument.
-/

namespace TrickleNet

/-- How many control messages wait for the transport. -/
abbrev outboxCapacity : Nat := 16

/-- How many commands wait for the run loop. -/
abbrev commandCapacity : Nat := 8

/-- A measured lateness, as the objective function receives it. -/
structure LatencySample where
  /-- The instance of the advertisement. -/
  inst : InstanceId
  /-- The parent that was late. -/
  parent : Address
  /-- By how much it was late. -/
  latency : Span
deriving DecidableEq, Repr

/-- A call to the routing table. -/
inductive RouteCall where
  /-- Stale routes are purged. -/
  | purge
  /-- The ranks of an instance are recomputed. -/
  | recompute (inst : InstanceId)
deriving DecidableEq, Repr

/-- The calls made to the routing table. -/
structure RouteUpkeep where
  /-- How often stale routes were purged, a 32-bit count. -/
  purges : Nat := 0
  /-- All calls, the latest first. -/
  calls : List RouteCall := []

namespace RouteUpkeep

/-- Purges stale routes. -/
def purge (u : RouteUpkeep) : Checked RouteUpkeep := do
  return { purges := ← countUp u.purges, calls := .purge :: u.calls }

/-- Recomputes the ranks of an instance. -/
def recompute (u : RouteUpkeep) (i : InstanceId) : RouteUpkeep :=
  { u with calls := .recompute i :: u.calls }

/-- Counts a call by the instance whose ranks it recomputes. -/
def countRecompute : RouteCall → Table InstanceId Nat → Table InstanceId Nat
  | .purge, t => t
  | .recompute i, t => t.insert i ((t.find? i).getD 0 + 1)

/-- How often the ranks of each instance were recomputed. -/
def recomputed (u : RouteUpkeep) : Table InstanceId Nat :=
  u.calls.foldr countRecompute ∅

end RouteUpkeep

/-- The timing core of a router, which draws from a source `ρ`. -/
structure Node (ρ : Type) where
  /-- The source of random draws. -/
  source : ρ
  /-- What the clock shows. -/
  clock : Instant := .zero
  /-- Whether the link-local address is usable. -/
  addressReady : Bool := true
  /-- The control messages that wait for the transport. -/
  outbox : Mailbox outboxCapacity Control := ∅
  /-- The commands that wait for the run loop. -/
  commands : Mailbox commandCapacity Command := ∅
  /-- The calls made to the routing table. -/
  upkeep : RouteUpkeep := {}
  /-- The samples handed to the objective function, oldest first. -/
  samples : List LatencySample := []
  /-- The alarms. -/
  alarms : AlarmTable := ∅
  /-- The topology instances that the node belongs to. -/
  dodags : Table InstanceId Dodag := ∅
  /-- Whether the link-local address was seen usable when an advertisement was due. -/
  mayAdvertise : Bool := false
  /-- Maintenance ticks since the last solicitation, clamped to 16 bits. -/
  sinceSolicit : Nat := 0
  /-- The counters. -/
  counts : NodeCounts := {}
  /-- The decisions not read yet. -/
  trace : Trace := ∅

namespace Node

variable {ρ : Type}

/-- A node that belongs to no topology instance. -/
def new (source : ρ) (clock : Instant) (addressReady : Bool) : Node ρ :=
  { source, clock, addressReady }

/-- Writes a decision into the trace. -/
def emit (n : Node ρ) (e : TraceEvent) : Node ρ := { n with trace := n.trace.offer e }

/-- Counts one more. -/
def count (n : Node ρ) (k : Counter) : Checked (Node ρ) := do
  return { n with counts := ← n.counts.bump k }

/-- Hands a message to the transport, or counts it as lost when too many are waiting. -/
def send (n : Node ρ) (c : Control) : Checked (Node ρ) :=
  if n.outbox.hasRoom then .ok { n with outbox := n.outbox.offer c } else n.count .controlDropped

/-- Arms an alarm. -/
def arm (n : Node ρ) (p : Purpose) (now : Instant) (after : Span) : Node ρ :=
  { n with alarms := n.alarms.set p now after }

/-- Replaces what the node keeps of an instance. -/
def putDodag (n : Node ρ) (i : InstanceId) (d : Dodag) : Node ρ :=
  { n with dodags := n.dodags.insert i d }

/-- When the first alarm is due. -/
def nextWake? (n : Node ρ) : Option Instant := n.alarms.nextDeadline?

/-- The watch of a candidate parent. -/
def watch? (n : Node ρ) (i : InstanceId) (parent : Address) : Option Watch :=
  (n.dodags.find? i).bind fun d => d.parents.find? parent

/-- Empties the outbox. -/
def takeOutbox (n : Node ρ) : List Control × Node ρ := (n.outbox.toList, { n with outbox := ∅ })

/-- Empties the trace. -/
def takeTrace (n : Node ρ) : List TraceEvent × Node ρ := (n.trace.toList, { n with trace := ∅ })

end Node

end TrickleNet

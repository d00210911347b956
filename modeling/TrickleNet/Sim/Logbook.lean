import TrickleNet.Message
import TrickleNet.Sim.Snapshot
import TrickleNet.Trace
/-!
# Logbooks

A simulation keeps a `Logbook`: how many messages went over the air, the decisions that its
stations took about their parents, and snapshots.  The entries are in the order in which they were
made.  A `RunReport` is the logbook at the end of a run.
-/

namespace TrickleNet

/-- A decision about a parent. -/
inductive LivenessKind where
  /-- Its window closed in silence. -/
  | missed
  /-- It was solicited. -/
  | probe
  /-- It answered while its window was still open. -/
  | answered
  /-- It was heard again after its silence. -/
  | recovered
  /-- It was heard late. -/
  | latency (lateness : Span)
deriving DecidableEq, Repr

/-- The decision that an event of a trace tells of, if it is one about a parent. -/
def LivenessKind.ofEvent? : TraceEvent → Option (InstanceId × LivenessKind)
  | .windowMissed i _ => some (i, .missed)
  | .probeSent i _ => some (i, .probe)
  | .probeAnswered i _ => some (i, .answered)
  | .parentRecovered i _ => some (i, .recovered)
  | .latencyMeasured i l => some (i, .latency l)
  | _ => none

/-- A decision about a parent, with its place in the simulation. -/
structure LivenessRecord where
  /-- When it was taken. -/
  time : Instant
  /-- The station that took it. -/
  station : Address
  /-- The instance. -/
  inst : InstanceId
  /-- What was decided. -/
  kind : LivenessKind
deriving DecidableEq, Repr

/-- The decisions about parents that a station's trace tells of. -/
def LivenessRecord.ofTrace (time : Instant) (station : Address) (events : List TraceEvent) :
    List LivenessRecord :=
  events.filterMap fun e =>
    (LivenessKind.ofEvent? e).map fun (inst, kind) => { time, station, inst, kind }

/-- Control messages by type. -/
structure Traffic where
  /-- Advertisements. -/
  dio : Nat := 0
  /-- Solicitations. -/
  dis : Nat := 0
  /-- Reports. -/
  dao : Nat := 0
deriving DecidableEq, Repr

/-- Counts one more message. -/
def Traffic.add (t : Traffic) : Control → Traffic
  | .dio .. => { t with dio := t.dio + 1 }
  | .dis .. => { t with dis := t.dis + 1 }
  | .dao .. => { t with dao := t.dao + 1 }

/-- What a simulation wrote down. -/
structure Logbook where
  /-- The messages handed to the radio. -/
  sent : Traffic := {}
  /-- Frames lost on a link. -/
  lost : Nat := 0
  /-- Frames that reached a station. -/
  delivered : Nat := 0
  /-- Reports that reached the parent to whom they were addressed. -/
  daosReceived : Nat := 0
  /-- The decisions about parents, oldest first. -/
  liveness : List LivenessRecord := []
  /-- The snapshots, oldest first. -/
  snapshots : List Snapshot := []

namespace Logbook

/-- Writes down a message handed to the radio. -/
def noteSent (b : Logbook) (c : Control) : Logbook := { b with sent := b.sent.add c }

/-- Writes down a lost frame. -/
def noteLost (b : Logbook) : Logbook := { b with lost := b.lost + 1 }

/-- Writes down a frame that reached a station. -/
def noteDelivered (b : Logbook) : Logbook := { b with delivered := b.delivered + 1 }

/-- Writes down a report that reached its parent. -/
def noteReport (b : Logbook) : Logbook := { b with daosReceived := b.daosReceived + 1 }

/-- Writes down decisions about parents. -/
def noteLiveness (b : Logbook) (l : List LivenessRecord) : Logbook :=
  { b with liveness := b.liveness ++ l }

/-- Puts in a snapshot. -/
def addSnapshot (b : Logbook) (s : Snapshot) : Logbook :=
  { b with snapshots := b.snapshots ++ [s] }

/-- The last snapshot. -/
def latest? (b : Logbook) : Option Snapshot := b.snapshots.getLast?

/-- The time of the first snapshot in which every station had joined. -/
def joinTime? (b : Logbook) : Option Instant :=
  (b.snapshots.find? Snapshot.allJoined).map Snapshot.time

/-- The decisions of one station. -/
def livenessOf (b : Logbook) (a : Address) : List LivenessRecord :=
  b.liveness.filter fun r => r.station = a

/-- When a station first missed a window. -/
def firstMiss? (b : Logbook) (a : Address) : Option Instant :=
  ((b.livenessOf a).find? fun r => r.kind = .missed).map LivenessRecord.time

end Logbook

/-- The result of a run. -/
structure RunReport where
  /-- When the run ended. -/
  endTime : Instant
  /-- The logbook at that time. -/
  logbook : Logbook := {}
  /-- Whether nothing was left to happen. -/
  exhausted : Bool := false

namespace RunReport

/-- Whether every station had joined in the end. -/
def allJoined (r : RunReport) : Bool := r.logbook.latest?.any Snapshot.allJoined

/-- How many stations had joined in the end. -/
def joinedCount (r : RunReport) : Nat := (r.logbook.latest?.map Snapshot.joinedCount).getD 0

/-- The missed windows of all stations in the end. -/
def windowsMissed (r : RunReport) : Checked Nat :=
  match r.logbook.latest? with
  | none => .ok 0
  | some s => s.total .windowsMissed

end RunReport

end TrickleNet

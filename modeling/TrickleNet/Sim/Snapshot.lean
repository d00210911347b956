import TrickleNet.Address
import TrickleNet.Counters
import TrickleNet.Table
import TrickleNet.Ticks
/-!
# Snapshots

A `Snapshot` holds what every station of a network looked like at one instant.
-/

namespace TrickleNet

/-- What one station looked like. -/
structure Portrait where
  /-- Whether it had joined. -/
  joined : Bool := false
  /-- Its distance from the root. -/
  hop : Option Nat := none
  /-- Its preferred parent. -/
  preferred : Option Address := none
  /-- Its counters. -/
  counts : NodeCounts := {}
  /-- How many reports were addressed to it. -/
  daosReceived : Nat := 0
deriving DecidableEq, Repr

/-- What every station looked like at an instant. -/
structure Snapshot where
  /-- The instant. -/
  time : Instant
  /-- The stations. -/
  stations : Table Address Portrait := ∅

namespace Snapshot

/-- Whether every station had joined. -/
def allJoined (s : Snapshot) : Bool := s.stations.values.all Portrait.joined

/-- How many stations had joined. -/
def joinedCount (s : Snapshot) : Nat := s.stations.values.countP Portrait.joined

/-- The largest distance from the root, or zero if none is known. -/
def deepestHop (s : Snapshot) : Nat := (s.stations.values.filterMap Portrait.hop).foldl max 0

/-- The sum of a counter over all stations, which is a 32-bit word again. -/
def total (s : Snapshot) (k : Counter) : Checked Nat :=
  s.stations.values.foldlM (fun n p => addChecked wordLimit32 n (p.counts.get k)) 0

/-- The portrait of one station. -/
def find? (s : Snapshot) (a : Address) : Option Portrait := s.stations.find? a

end Snapshot

end TrickleNet

import TrickleNet.Ticks
/-!
# Platforms

A `Platform` fixes what does not travel in messages: the rate of the clock, the delays of the
protocol and the bounds of a node's collections.  `Platform.embedded` is a 128 Hz clock,
`Platform.millis` a millisecond clock, and `Platform.simulated` the millisecond clock of simulated
nodes, whose probes are at most five seconds apart.
-/

namespace TrickleNet

/-- The constants of the device a node runs on. -/
structure Platform where
  /-- The rate of the clock. -/
  ticksPerSecond : Nat
  /-- The period of the maintenance ticker. -/
  upkeepInterval : Span
  /-- Maintenance ticks between solicitations while detached. -/
  solicitInterval : UInt16
  /-- Maintenance ticks before the first solicitation. -/
  solicitDelay : UInt16
  /-- The base latency `L` of reports, whose delays fall into `[L/2, 3L/2)`. -/
  reportLatency : Span
  /-- The delay of a retry while the link-local address is not usable. -/
  postponeDelay : Span
  /-- What is added to an announced jitter phase to absorb clock drift. -/
  receptionSkew : Span
  /-- The longest delay between two probes. -/
  probeMaxDelay : Span
  /-- The largest number of topology instances a node joins. -/
  maxInstances : Nat
  /-- The largest number of candidate parents in one instance. -/
  maxParents : Nat
deriving DecidableEq, Repr

namespace Platform

/-- A platform with a 128 Hz clock. -/
def embedded : Platform where
  ticksPerSecond := 128
  upkeepInterval := .ofSecs 1 128
  solicitInterval := 60
  solicitDelay := 5
  reportLatency := .ofSecs 4 128
  postponeDelay := .ofSecs 1 128
  receptionSkew := .ofTicks 400
  probeMaxDelay := .ofTicks 100000
  maxInstances := 2
  maxParents := 8

/-- A platform with a millisecond clock. -/
def millis : Platform where
  ticksPerSecond := 1000
  upkeepInterval := .ofSecs 1 1000
  solicitInterval := 60
  solicitDelay := 5
  reportLatency := .ofSecs 4 1000
  postponeDelay := .ofSecs 1 1000
  receptionSkew := .ofTicks 400
  probeMaxDelay := .ofTicks 100000
  maxInstances := 4
  maxParents := 16

/-- The platform of simulated nodes. -/
def simulated : Platform := { millis with probeMaxDelay := .ofSecs 5 1000 }

end Platform

end TrickleNet

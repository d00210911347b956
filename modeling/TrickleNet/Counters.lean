import TrickleNet.Fault
/-!
# Counters

The counters of a node and of one topology instance.  Each is a 32-bit word, and counting past the
largest one is a fault.
-/

namespace TrickleNet

/-- One more than a 32-bit counter. -/
def countUp (n : Nat) : Checked Nat := addChecked wordLimit32 n 1

/-- What a node counts. -/
inductive Counter where
  /-- Trickle resets that restarted an interval. -/
  | dioResets
  /-- Advertisements postponed for lack of a link-local address. -/
  | dioPostponed
  /-- Reports postponed for lack of a link-local address. -/
  | daoPostponed
  /-- Reports sent. -/
  | daoSent
  /-- Solicitations sent to all neighbours. -/
  | disBroadcast
  /-- Reception windows that passed without an advertisement. -/
  | windowsMissed
  /-- Solicitations sent to one parent. -/
  | probesSent
  /-- Latency samples taken. -/
  | latencySamples
  /-- Messages lost because too many were waiting. -/
  | controlDropped
deriving DecidableEq, Repr

namespace Counter

/-- All counters, in the order in which reports list them. -/
def all : List Counter :=
  [dioResets, dioPostponed, daoPostponed, daoSent, disBroadcast, windowsMissed, probesSent,
    latencySamples, controlDropped]

theorem mem_all (c : Counter) : c ∈ all := by cases c <;> decide

end Counter

/-- The counters of a node. -/
structure NodeCounts where
  /-- The value of `Counter.dioResets`. -/
  dioResets : Nat := 0
  /-- The value of `Counter.dioPostponed`. -/
  dioPostponed : Nat := 0
  /-- The value of `Counter.daoPostponed`. -/
  daoPostponed : Nat := 0
  /-- The value of `Counter.daoSent`. -/
  daoSent : Nat := 0
  /-- The value of `Counter.disBroadcast`. -/
  disBroadcast : Nat := 0
  /-- The value of `Counter.windowsMissed`. -/
  windowsMissed : Nat := 0
  /-- The value of `Counter.probesSent`. -/
  probesSent : Nat := 0
  /-- The value of `Counter.latencySamples`. -/
  latencySamples : Nat := 0
  /-- The value of `Counter.controlDropped`. -/
  controlDropped : Nat := 0
deriving DecidableEq, Repr

namespace NodeCounts

/-- The value of a counter. -/
def get (c : NodeCounts) : Counter → Nat
  | .dioResets => c.dioResets
  | .dioPostponed => c.dioPostponed
  | .daoPostponed => c.daoPostponed
  | .daoSent => c.daoSent
  | .disBroadcast => c.disBroadcast
  | .windowsMissed => c.windowsMissed
  | .probesSent => c.probesSent
  | .latencySamples => c.latencySamples
  | .controlDropped => c.controlDropped

/-- Gives a counter a value. -/
def set (c : NodeCounts) (k : Counter) (n : Nat) : NodeCounts :=
  match k with
  | .dioResets => { c with dioResets := n }
  | .dioPostponed => { c with dioPostponed := n }
  | .daoPostponed => { c with daoPostponed := n }
  | .daoSent => { c with daoSent := n }
  | .disBroadcast => { c with disBroadcast := n }
  | .windowsMissed => { c with windowsMissed := n }
  | .probesSent => { c with probesSent := n }
  | .latencySamples => { c with latencySamples := n }
  | .controlDropped => { c with controlDropped := n }

/-- Counts one more. -/
def bump (c : NodeCounts) (k : Counter) : Checked NodeCounts := do
  return c.set k (← countUp (c.get k))

@[simp] theorem get_set (c : NodeCounts) (k l : Counter) (n : Nat) :
    (c.set k n).get l = if l = k then n else c.get l := by
  cases k <;> cases l <;> rfl

end NodeCounts

/-- The counters of one topology instance. -/
structure AdvertCounts where
  /-- Intervals started. -/
  intervals : Nat := 0
  /-- Advertisements sent. -/
  sent : Nat := 0
  /-- Consistent advertisements heard, summed over the intervals that ended. -/
  received : Nat := 0
  /-- Advertisements left out as redundant. -/
  suppressed : Nat := 0
deriving DecidableEq, Repr

end TrickleNet

import TrickleNet.Node.Basic
/-!
# Advertising

At the end of the listen phase of an interval the node advertises, unless it has heard enough
consistent advertisements in that interval.  At the end of the jitter phase the next interval
begins, twice as long up to the limit.  An inconsistency takes the timer back to the shortest
interval.
-/

namespace TrickleNet.Node

variable {ρ : Type} [RandomSource ρ]

/-- Begins an interval of an instance at its current exponent. -/
def beginInterval (p : Platform) (n : Node ρ) (i : InstanceId) (now : Instant) :
    Checked (Node ρ) :=
  match n.dodags.find? i with
  | none => .ok n
  | some d => do
    let (split, d, source) ← d.begin p n.source
    let n := ({ n with source }).putDodag i d
    let n := n.emit (.intervalStarted i d.exponent split.listen split.jitter)
    return n.arm (.advertise i) now split.listen

/-- Takes the trickle timer of an instance back to the shortest interval.  Unless forced, this
happens only if the interval has grown, so that repeated inconsistencies do not keep restarting
it. -/
def resetDio (p : Platform) (n : Node ρ) (i : InstanceId) (force : Bool) (now : Instant) :
    Checked (Outcome (Node ρ)) :=
  match n.dodags.find? i with
  | none => .ok (.refused .unknownInstance n)
  | some d =>
    if !force && d.exponent ≤ d.params.minExponent.toNat then .ok (.granted n)
    else do
      let n ← (n.putDodag i d.restart).count .dioResets
      let n := n.emit (.trickleReset i force)
      return .granted (← beginInterval p n i now)

/-- Notes a consistent advertisement in the current interval. -/
def dioConsistent (n : Node ρ) (i : InstanceId) : Outcome (Node ρ) :=
  match n.dodags.find? i with
  | none => .refused .unknownInstance n
  | some d => .granted (n.putDodag i d.hear)

/-- Remembers once the link-local address is usable. -/
def latchReady (n : Node ρ) : Node ρ :=
  { n with mayAdvertise := n.mayAdvertise || n.addressReady }

/-- The end of a listen phase: advertises unless that is redundant, then waits for the end of the
interval. -/
def takeDecision (n : Node ρ) (i : InstanceId) (d : Dodag) (now : Instant) : Checked (Node ρ) :=
  if d.heard < d.params.redundancy.toNat then do
    let sent ← countUp d.counts.sent
    let d' := { d with phase := .jitter, counts := { d.counts with sent } }
    let n := (n.putDodag i d').emit (.dioSent i)
    let n ← n.send (.dio i d.lookahead)
    return n.arm (.advertise i) now d.jitter
  else do
    let suppressed ← countUp d.counts.suppressed
    let d' := { d with phase := .jitter, counts := { d.counts with suppressed } }
    let n := (n.putDodag i d').emit (.dioSuppressed i d.heard d.params.redundancy)
    return n.arm (.advertise i) now d.jitter

/-- The end of an interval: the next one begins, longer if it can be. -/
def endInterval (p : Platform) (n : Node ρ) (i : InstanceId) (d : Dodag) (now : Instant) :
    Checked (Node ρ) :=
  beginInterval p (n.putDodag i d.grow) i now

/-- The trickle timer of an instance rings.  While the link-local address is not usable this is put
off, and tried again later. -/
def advertiseRings (p : Platform) (n : Node ρ) (i : InstanceId) (now : Instant) :
    Checked (Node ρ) :=
  let n := n.latchReady
  if !n.mayAdvertise then do
    let n ← n.count .dioPostponed
    return (n.emit (.dioPostponed i)).arm (.advertise i) now p.postponeDelay
  else match n.dodags.find? i with
    | none => .ok n
    | some d => match d.phase with
      | .listen => n.takeDecision i d now
      | .jitter | .idle => endInterval p n i d now

end TrickleNet.Node

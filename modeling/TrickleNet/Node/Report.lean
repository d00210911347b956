import TrickleNet.Node.Basic
/-!
# Reporting

A request to report reachability is granted after a random delay in `[L/2, 3L/2)`, where `L` is the
platform's latency.  Requests made while a report is pending are merged with it.
-/

namespace TrickleNet.Node

variable {ρ : Type} [RandomSource ρ]

/-- Schedules a report of an instance, unless one is pending. -/
def scheduleDao (p : Platform) (n : Node ρ) (i : InstanceId) (now : Instant) :
    Checked (Outcome (Node ρ)) :=
  if !n.dodags.contains i then .ok (.refused .unknownInstance n)
  else if n.alarms.isArmed (.report i) then .ok (.granted (n.emit (.daoAlreadyScheduled i)))
  else do
    let latency := p.reportLatency.ticks
    let (offset, source) := RandomSource.draw n.source 0 latency
    let ticks ← addChecked wordLimit64 (latency / 2) offset
    let delay := Span.ofTicks ticks
    let n := ({ n with source }).arm (.report i) now delay
    return .granted (n.emit (.daoScheduled i delay))

/-- The report of an instance is due.  It goes to the preferred parent; while the link-local
address is not usable it is put off. -/
def reportRings (p : Platform) (n : Node ρ) (i : InstanceId) (now : Instant) :
    Checked (Node ρ) :=
  if !n.mayAdvertise && !n.addressReady then do
    let n ← n.count .daoPostponed
    return (n.emit (.daoPostponed i)).arm (.report i) now p.postponeDelay
  else match n.dodags.find? i with
    | none => .ok n
    | some d => do
      let n ← match d.preferred with
        | some parent => do
          let n ← n.count .daoSent
          (n.emit (.daoSent i parent)).send (.dao i parent d.params.lifetime)
        | none => pure (n.emit (.noDaoParent i))
      return { n with alarms := n.alarms.stop (.report i) }

end TrickleNet.Node

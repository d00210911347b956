import TrickleNet.Node.Basic
/-!
# Tracking the preferred parent

Every advertisement of the preferred parent announces when the next one is due.  One that comes
after it was expected is a measure of the parent's lateness; when the whole window passes in
silence, the parent is probed at random intervals until it answers or is no longer preferred.

Only the preferred parent is tracked, so each step begins by asking whether it still is.
-/

namespace TrickleNet.Node

variable {ρ : Type} [RandomSource ρ]

/-- Replaces the watch of a parent. -/
def putWatch (n : Node ρ) (i : InstanceId) (d : Dodag) (parent : Address) (w : Watch) : Node ρ :=
  n.putDodag i { d with parents := d.parents.insert parent w }

/-- Predicts the next advertisement of a parent: its interval begins `delay` after `now` and has
the given phases.  An alarm is set for the end of that window.  Nothing happens unless the parent
is the preferred one. -/
def scheduleReception (n : Node ρ) (i : InstanceId) (parent : Address)
    (delay listen jitter : Span) (now : Instant) : Outcome (Node ρ) :=
  match n.dodags.find? i with
  | none => .refused .unknownInstance n
  | some d =>
    if d.preferred ≠ some parent then .granted n
    else match d.parents.find? parent with
      | none => .refused .unknownParent n
      | some w =>
        let w := { w with opens := now + delay, listen, jitter }
        let n := n.putWatch i d parent w
        let n := n.emit (.windowPredicted i w.opens w.closes)
        .granted (n.arm (.watch i parent) now (delay + listen + jitter))

/-- Sets the alarm for the next probe of a parent, at least one tick from now. -/
def armProbe (p : Platform) (n : Node ρ) (i : InstanceId) (parent : Address) (now : Instant) :
    Node ρ :=
  let (delay, source) := RandomSource.draw n.source 1 (min (p.probeMaxDelay.ticks + 1) maxTicks)
  ({ n with source }).arm (.probe i parent) now (.ofTicks delay)

/-- Sends a solicitation to a parent. -/
def sendProbe (n : Node ρ) (i : InstanceId) (parent : Address) : Checked (Node ρ) := do
  let n ← n.count .probesSent
  (n.emit (.probeSent i parent)).send (.dis (some parent))

/-- The window of a parent closes without an advertisement: the parent is silent now. -/
def watchRings (p : Platform) (n : Node ρ) (i : InstanceId) (parent : Address) (now : Instant) :
    Checked (Node ρ) :=
  match n.dodags.find? i with
  | none => .ok n
  | some d =>
    if d.preferred ≠ some parent then .ok n
    else match d.parents.find? parent with
      | none => .ok n
      | some w => do
        let n ← (n.putWatch i d parent { w with stage := .silent }).count .windowsMissed
        return armProbe p (n.emit (.windowMissed i parent)) i parent now

/-- The next probe of a silent parent is due. -/
def probeRings (p : Platform) (n : Node ρ) (i : InstanceId) (parent : Address) (now : Instant) :
    Checked (Node ρ) :=
  match n.dodags.find? i with
  | none => .ok n
  | some d =>
    if d.preferred ≠ some parent then .ok n
    else if (d.parents.find? parent).any fun w => w.stage = .silent then do
      return armProbe p (← n.sendProbe i parent) i parent now
    else .ok n

/-- Asks the preferred parent for an advertisement.  While a window is predicted the parent counts
as solicited until its next advertisement. -/
def solicit (n : Node ρ) (i : InstanceId) : Checked (Outcome (Node ρ)) :=
  match n.dodags.find? i with
  | none => .ok (.refused .unknownInstance n)
  | some d => match d.preferred with
    | none => .ok (.granted n)
    | some parent => do
      let mark (w : Watch) : Watch :=
        if w.stage = .awaitingWindow then { w with stage := .solicited } else w
      let n := n.putDodag i { d with parents := d.parents.adjust parent mark }
      return .granted (← n.sendProbe i parent)

/-- The first advertisement of a parent, or the first after its silence. -/
def firstHeard (n : Node ρ) (i : InstanceId) (d : Dodag) (sender : Address) (w : Watch)
    (delay listen jitter : Span) (now : Instant) : Outcome (Node ρ) :=
  let n := n.putWatch i d sender { w with stage := .awaitingWindow }
  let n := { n with alarms := n.alarms.stop (.probe i sender) }
  let n := if w.stage = .silent then n.emit (.parentRecovered i sender) else n
  n.scheduleReception i sender delay listen jitter now

/-- The answer to a solicitation.  The window keeps its opening and takes the announced phases, and
its alarm moves to the end of the window announced. -/
def answerHeard (n : Node ρ) (i : InstanceId) (d : Dodag) (sender : Address) (w : Watch)
    (listen jitter : Span) (now : Instant) : Outcome (Node ρ) :=
  let residual := (w.closes + listen) - now
  let n := n.putWatch i d sender { w with stage := .awaitingWindow, listen, jitter }
  let n := n.emit (.probeAnswered i residual)
  .granted (n.arm (.watch i sender) now (residual + jitter))

/-- An advertisement that comes after it was expected: its lateness is a sample for the objective
function. -/
def lateHeard (n : Node ρ) (i : InstanceId) (d : Dodag) (sender : Address) (w : Watch)
    (delay listen jitter : Span) (now : Instant) : Checked (Outcome (Node ρ)) := do
  let latency ← now.since? w.expected
  let n ← (n.putWatch i d sender { w with latency := some latency }).count .latencySamples
  let n := n.emit (.latencyMeasured i latency)
  let n : Node ρ := { n with samples := n.samples ++ [⟨i, sender, latency⟩] }
  return n.scheduleReception i sender delay listen jitter now

/-- An advertisement was received.  Only those of the preferred parent matter; the platform's skew
is added to the jitter phase that they announce. -/
def dioReceived (p : Platform) (n : Node ρ) (i : InstanceId) (sender : Address)
    (l : Lookahead) (now : Instant) : Checked (Outcome (Node ρ)) :=
  match n.dodags.find? i with
  | none => .ok (.refused .unknownInstance n)
  | some d =>
    if d.preferred ≠ some sender then .ok (.granted n)
    else match d.parents.find? sender with
      | none => .ok (.refused .unknownParent n)
      | some w =>
        let jitter := l.jitter + p.receptionSkew
        match w.stage with
        | .awaitingFirst | .silent =>
          .ok (n.firstHeard i d sender w l.delay l.listen jitter now)
        | .solicited => .ok (n.answerHeard i d sender w l.listen jitter now)
        | .awaitingWindow =>
          if w.expected < now then n.lateHeard i d sender w l.delay l.listen jitter now
          else if l.listen + jitter = w.length then
            .ok (n.scheduleReception i sender l.delay l.listen jitter now)
          else .ok (.granted (n.emit (.dioEarly i (w.expected - now))))

end TrickleNet.Node

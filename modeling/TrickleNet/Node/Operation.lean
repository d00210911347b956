import TrickleNet.Node.Membership
import TrickleNet.Node.Ring
/-!
# Operations

All requests to a node as one type.  `Node.perform` carries one out at an instant and says whether
it was refused; requests that cannot be refused are always granted.
-/

namespace TrickleNet

/-- A request to a node. -/
inductive Operation where
  /-- Join or form an instance. -/
  | join (inst : InstanceId) (params : TrickleParams)
  /-- Leave an instance. -/
  | leave (inst : InstanceId)
  /-- Register a candidate parent. -/
  | addParent (inst : InstanceId) (parent : Address)
  /-- Drop a candidate parent. -/
  | removeParent (inst : InstanceId) (parent : Address)
  /-- Predict a reception window. -/
  | scheduleReception (inst : InstanceId) (parent : Address) (delay listen jitter : Span)
  /-- Let every alarm ring that is due. -/
  | handleTimer
  /-- Carry out a command. -/
  | command (command : Command)
deriving DecidableEq, Repr

namespace Node

variable {ρ : Type} [RandomSource ρ]

/-- Carries out a command. -/
def handleCommand (p : Platform) (n : Node ρ) (c : Command) (now : Instant) :
    Checked (Outcome (Node ρ)) :=
  match c with
  | .resetDio i force => resetDio p n i force now
  | .scheduleDao i => scheduleDao p n i now
  | .dioConsistent i => .ok (n.dioConsistent i)
  | .dioReceived i sender lookahead => dioReceived p n i sender lookahead now
  | .setPreferred i parent => .ok (n.setPreferred i parent)
  | .solicit i => n.solicit i
  | .restartUpkeep => .ok (.granted (restartUpkeep p n now))

/-- Carries out a request. -/
def perform (p : Platform) (n : Node ρ) (o : Operation) (now : Instant) :
    Checked (Outcome (Node ρ)) :=
  match o with
  | .join i params => join p n i params now
  | .leave i => .ok (n.leave i)
  | .addParent i parent => .ok (addParent p n i parent)
  | .removeParent i parent => .ok (n.removeParent i parent)
  | .scheduleReception i parent delay listen jitter =>
    .ok (n.scheduleReception i parent delay listen jitter now)
  | .handleTimer => return .granted (← handleTimer p n now)
  | .command c => handleCommand p n c now

end Node

end TrickleNet

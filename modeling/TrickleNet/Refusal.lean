import TrickleNet.Fault
/-!
# Refusals

A request that cannot be granted is answered with a `Refusal`.  The `Outcome` of a request holds
the refusal, if there is one, next to the state after the request, so that a statement can say that
a refused request changed nothing.
-/

namespace TrickleNet

/-- Why a request was not granted. -/
inductive Refusal where
  /-- The node has not joined this topology instance. -/
  | unknownInstance
  /-- The node has joined this topology instance already. -/
  | instanceExists
  /-- The node is in as many topology instances as it can be. -/
  | tooManyInstances
  /-- The instance has as many candidate parents as it can have. -/
  | tooManyParents
  /-- The address is not that of a candidate parent. -/
  | unknownParent
  /-- The parameters allow intervals that are too long. -/
  | invalidParams
deriving DecidableEq, Repr

/-- The text of a refusal. -/
def Refusal.message : Refusal → String
  | .unknownInstance => "unknown instance"
  | .instanceExists => "instance already joined"
  | .tooManyInstances => "too many instances"
  | .tooManyParents => "too many parents"
  | .unknownParent => "unknown parent"
  | .invalidParams => "invalid trickle parameters"

/-- The answer to a request and the state after it. -/
structure Outcome (σ : Type) where
  /-- Why the request was refused, if it was. -/
  refusal : Option Refusal
  /-- The state after the request. -/
  state : σ
deriving DecidableEq, Repr

namespace Outcome

variable {σ τ : Type}

/-- A request that was granted. -/
def granted (s : σ) : Outcome σ := ⟨none, s⟩

/-- A request that was refused. -/
def refused (r : Refusal) (s : σ) : Outcome σ := ⟨some r, s⟩

/-- The same answer about a larger state. -/
def map (f : σ → τ) (o : Outcome σ) : Outcome τ := ⟨o.refusal, f o.state⟩

/-- Goes on with the next request unless this one was refused. -/
def andThen (o : Outcome σ) (next : σ → Checked (Outcome σ)) : Checked (Outcome σ) :=
  if o.refusal.isSome then .ok o else next o.state

@[simp] theorem refusal_granted (s : σ) : (granted s).refusal = none := rfl

@[simp] theorem state_granted (s : σ) : (granted s).state = s := rfl

@[simp] theorem refusal_refused (r : Refusal) (s : σ) : (refused r s).refusal = some r := rfl

@[simp] theorem state_refused (r : Refusal) (s : σ) : (refused r s).state = s := rfl

@[simp] theorem refusal_map (f : σ → τ) (o : Outcome σ) : (o.map f).refusal = o.refusal := rfl

@[simp] theorem state_map (f : σ → τ) (o : Outcome σ) : (o.map f).state = f o.state := rfl

end Outcome

end TrickleNet

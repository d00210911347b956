import TrickleNet.Node.Advertise
/-!
# Instances and parents

Joining and leaving topology instances, and choosing parents within them.  Each request is refused
before anything changes; the order in which the reasons for a refusal are tried is part of the
behaviour.
-/

namespace TrickleNet.Node

variable {ρ : Type} [RandomSource ρ]

/-- Joins or forms a topology instance and starts its trickle timer. -/
def join (p : Platform) (n : Node ρ) (i : InstanceId) (params : TrickleParams) (now : Instant) :
    Checked (Outcome (Node ρ)) :=
  if ¬params.Valid then .ok (.refused .invalidParams n)
  else if n.dodags.contains i then .ok (.refused .instanceExists n)
  else if p.maxInstances ≤ n.dodags.size then .ok (.refused .tooManyInstances n)
  else resetDio p (n.putDodag i (.new params)) i true now

/-- Leaves a topology instance and forgets its alarms. -/
def leave (n : Node ρ) (i : InstanceId) : Outcome (Node ρ) :=
  if n.dodags.contains i then
    .granted { n with dodags := n.dodags.erase i, alarms := n.alarms.removeInstance i }
  else .refused .unknownInstance n

/-- Registers a candidate parent.  A parent that is registered already stays as it is. -/
def addParent (p : Platform) (n : Node ρ) (i : InstanceId) (parent : Address) :
    Outcome (Node ρ) :=
  match n.dodags.find? i with
  | none => .refused .unknownInstance n
  | some d =>
    if d.parents.contains parent then .granted n
    else if p.maxParents ≤ d.parents.size then .refused .tooManyParents n
    else .granted (n.putDodag i { d with parents := d.parents.insert parent {} })

/-- Forgets the alarms that watch a parent. -/
def forgetAlarms (n : Node ρ) (i : InstanceId) (parent : Address) : Node ρ :=
  { n with alarms := (n.alarms.remove (.watch i parent)).remove (.probe i parent) }

/-- Drops a candidate parent.  If it was the preferred one, none is preferred afterwards. -/
def removeParent (n : Node ρ) (i : InstanceId) (parent : Address) : Outcome (Node ρ) :=
  match n.dodags.find? i with
  | none => .refused .unknownInstance n
  | some d =>
    if d.parents.contains parent then
      let preferred := if d.preferred = some parent then none else d.preferred
      let d := { d with parents := d.parents.erase parent, preferred }
      .granted ((n.putDodag i d).forgetAlarms i parent)
    else .refused .unknownParent n

/-- Prefers another parent, or none.  The parent that was preferred is no longer watched: its
record starts over and its alarms are forgotten. -/
def setPreferred (n : Node ρ) (i : InstanceId) (parent : Option Address) : Outcome (Node ρ) :=
  match n.dodags.find? i with
  | none => .refused .unknownInstance n
  | some d =>
    if parent.any fun a => !d.parents.contains a then .refused .unknownParent n
    else if d.preferred = parent then .granted n
    else match d.preferred with
      | none => .granted (n.putDodag i { d with preferred := parent })
      | some old =>
        let d := { d with preferred := parent, parents := d.parents.adjust old fun _ => {} }
        .granted ((n.putDodag i d).forgetAlarms i old)

end TrickleNet.Node

import TrickleNet.Node.Operation
/-!
# Stations

A `Station` is a node that takes part in a network: it joins an instance through the first
advertisement that it hears, keeps the senders closer to the root as further candidate parents, and
answers solicitations by restarting its trickle timers.

Every request sets the clock of the node first.  `Station.perform` is the only way in which a
station talks to its node, so what a request does to the node is what `Node.perform` does.
-/

namespace TrickleNet

/-- The largest distance from the root that a station tells apart. -/
abbrev maxHop : Nat := 255

/-- A node and the part that it plays in a network. -/
structure Station where
  /-- The address of the station. -/
  address : Address
  /-- The node. -/
  node : Node Generator
  /-- The distance from the root, once the station has joined. -/
  hop : Option Nat := none
  /-- The deadline for which an event is on the agenda. -/
  wake : Option Instant := none
  /-- How many reports were addressed to this station, a 32-bit count. -/
  daosReceived : Nat := 0
  /-- When the station was switched on. -/
  createdAt : Instant

namespace Station

/-- A station that has just been switched on. -/
def new (address : Address) (seed : UInt64) (now : Instant) : Station where
  address := address
  node := .new (.highBits seed) now true
  createdAt := now

/-- Whether the station is the root of the network. -/
def isRoot (s : Station) : Bool := s.hop = some 0

/-- Whether the station has joined an instance. -/
def isJoined (s : Station) (i : InstanceId) : Bool := s.node.dodags.contains i

/-- The preferred parent of the station. -/
def preferred? (s : Station) (i : InstanceId) : Option Address :=
  (s.node.dodags.find? i).bind Dodag.preferred

/-- Sets the clock of the node. -/
def setClock (s : Station) (now : Instant) : Station :=
  { s with node := { s.node with clock := now } }

/-- Makes the link-local address of the node usable, or unusable. -/
def setReady (s : Station) (ready : Bool) : Station :=
  { s with node := { s.node with addressReady := ready } }

/-- Sets the clock and makes a request to the node. -/
def perform (s : Station) (o : Operation) (now : Instant) : Checked (Outcome Station) := do
  let s := s.setClock now
  let o ← s.node.perform .simulated o now
  return o.map fun node => { s with node }

/-- Makes a request that is never refused. -/
def demand (s : Station) (o : Operation) (now : Instant) : Checked Station :=
  return (← s.perform o now).state

/-! ## Requests of the owner -/

/-- Starts the maintenance ticker. -/
def start (s : Station) (now : Instant) : Checked Station := s.demand (.command .restartUpkeep) now

/-- Forms an instance with this station as its root. -/
def form (s : Station) (i : InstanceId) (params : TrickleParams) (now : Instant) :
    Checked (Outcome Station) := do
  let o ← s.perform (.join i params) now
  o.andThen fun s => .ok (.granted { s with hop := some 0 })

/-- Lets every alarm ring that is due. -/
def handleTimer (s : Station) (now : Instant) : Checked Station := s.demand .handleTimer now

/-! ## Messages heard -/

/-- Joins an instance through the sender of an advertisement, one hop further from the root, and
reports to it soon. -/
def joinThrough (s : Station) (sender : Address) (senderHop : Nat) (i : InstanceId)
    (params : TrickleParams) (now : Instant) : Checked (Outcome Station) := do
  let o ← s.perform (.join i params) now
  let o ← o.andThen fun s =>
    { s with hop := some (min (senderHop + 1) maxHop) }.perform (.addParent i sender) now
  let o ← o.andThen fun s => s.perform (.command (.setPreferred i (some sender))) now
  o.andThen fun s => s.perform (.command (.scheduleDao i)) now

/-- Registers a candidate parent if there is room for one. -/
def addBackup (s : Station) (sender : Address) (i : InstanceId) (now : Instant) :
    Checked (Outcome Station) := do
  let o ← s.perform (.addParent i sender) now
  return if o.refusal = some .tooManyParents then .granted o.state else o

/-- Takes the sender of an advertisement as a parent where that makes sense: the station joins
through the first one that it hears, and later ones closer to the root are candidates. -/
def considerSender (s : Station) (sender : Address) (senderHop : Nat) (i : InstanceId)
    (params : TrickleParams) (now : Instant) : Checked (Outcome Station) :=
  if !s.isJoined i then s.joinThrough sender senderHop i params now
  else if s.hop.any fun hop => senderHop < hop then s.addBackup sender i now
  else .ok (.granted s)

/-- An advertisement was heard from a sender at some distance from the root.  It counts as
consistent, and the node learns its lookahead. -/
def heardDio (s : Station) (sender : Address) (senderHop : Nat) (i : InstanceId) (l : Lookahead)
    (params : TrickleParams) (now : Instant) : Checked (Outcome Station) := do
  let o ← (s.setClock now).considerSender sender senderHop i params now
  let o ← o.andThen fun s => s.perform (.command (.dioConsistent i)) now
  o.andThen fun s => s.perform (.command (.dioReceived i sender l)) now

/-- A solicitation was heard: the trickle timer of every joined instance restarts. -/
def heardDis (s : Station) (now : Instant) : Checked Station :=
  s.node.dodags.keys.foldlM (fun s i => s.demand (.command (.resetDio i false)) now)
    (s.setClock now)

/-- A report was heard.  It counts if it is addressed to this station. -/
def heardDao (s : Station) (parent : Address) : Checked (Bool × Station) :=
  if parent = s.address then do
    return (true, { s with daosReceived := ← countUp s.daosReceived })
  else .ok (false, s)

end Station

end TrickleNet

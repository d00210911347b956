import TrickleNet.Radio.Map
import TrickleNet.Sim.Agenda
import TrickleNet.Sim.Logbook
import TrickleNet.Sim.Station
/-!
# Simulations

A `Simulation` plays the stations of a network against each other.  Everything that happens is on
its agenda: messages on their way, the next alarm of every station, and the changes that a scenario
makes to the world.

After each call into a station `Simulation.settle` collects what the station did: the decisions in
its trace go into the logbook, its messages go on the air, and if its first alarm has moved, the
new deadline goes on the agenda.  Events for deadlines that have moved stay there and are ignored
when they come up.
-/

namespace TrickleNet

/-- The instance that simulated stations form and join. -/
abbrev simulatedInstance : InstanceId := 1

/-- Snapshots at regular times. -/
structure Sampling where
  /-- The time between two snapshots. -/
  every : Span
  /-- When the next one is due. -/
  next : Instant
deriving DecidableEq, Repr

/-- A network of stations, and what is to happen in it. -/
structure Simulation where
  /-- The stations. -/
  stations : Table Address Station := ∅
  /-- Who hears whom. -/
  radio : RadioMap := ∅
  /-- The present. -/
  now : Instant := .zero
  /-- What is to happen. -/
  agenda : Agenda := {}
  /-- What was written down. -/
  logbook : Logbook := {}
  /-- The state of the generator behind frame loss and link jitter. -/
  radioState : UInt64
  /-- The trickle parameters of the simulated instance. -/
  params : TrickleParams := {}
  /-- Snapshots at regular times, if there are any. -/
  sampling : Option Sampling := none

namespace Simulation

/-- A simulation without stations. -/
def new (seed : UInt64) : Simulation := { radioState := seed }

/-- The simulation with snapshots at regular times from now on. -/
def sampleEvery (s : Simulation) (every : Span) : Simulation :=
  { s with sampling := some { every, next := s.now + every } }

/-- Puts something on the agenda. -/
def schedule (s : Simulation) (time : Instant) (h : Happening) : Checked Simulation := do
  return { s with agenda := ← s.agenda.schedule time h }

/-- Replaces a station. -/
def putStation (s : Simulation) (t : Station) : Simulation :=
  { s with stations := s.stations.insert t.address t }

/-! ## The air -/

/-- The stations that a message of a sender is meant for: advertisements and solicitations without
a target are for all neighbours. -/
def receivers (s : Simulation) (sender : Address) : Control → List Address
  | .dio .. | .dis none => s.radio.neighbors sender
  | .dis (some target) => [target]
  | .dao _ parent _ => [parent]

/-- Sends a frame to one receiver.  Without a link that is up nothing is sent; with one the frame
is lost, or delivered after the delay of the link. -/
def sendFrame (s : Simulation) (sender : Address) (c : Control) (receiver : Address) :
    Checked Simulation :=
  match s.radio.link? sender receiver with
  | none => .ok s
  | some link =>
    if link.active then
      match link.losesFrame s.radioState with
      | (true, radioState) => .ok { s with radioState, logbook := s.logbook.noteLost }
      | (false, radioState) => do
        let (extra, radioState) ← link.extraDelay radioState
        { s with radioState }.schedule (s.now + link.delay + extra) (.deliver sender receiver c)
    else .ok s

/-- Puts a message on the air. -/
def transmit (s : Simulation) (sender : Address) (c : Control) : Checked Simulation :=
  let s := { s with logbook := s.logbook.noteSent c }
  (s.receivers sender c).foldlM (fun s receiver => s.sendFrame sender c receiver) s

/-! ## Calls into stations -/

/-- Puts the first alarm of a station on the agenda, unless it is there already. -/
def planWake (s : Simulation) (t : Station) : Checked Simulation :=
  let wake := t.node.nextWake?
  if wake = t.wake then .ok s
  else
    let s := s.putStation { t with wake }
    match wake with
    | none => .ok s
    | some deadline => s.schedule (s.now.later deadline) (.wake t.address deadline)

/-- Puts a station back after a call and collects what it did. -/
def settle (s : Simulation) (t : Station) : Checked Simulation := do
  let (events, node) := t.node.takeTrace
  let (messages, node) := node.takeOutbox
  let t := { t with node }
  let records := LivenessRecord.ofTrace s.now t.address events
  let s := { s.putStation t with logbook := s.logbook.noteLiveness records }
  let s ← messages.foldlM (fun s c => s.transmit t.address c) s
  s.planWake t

/-- The address of the next station. -/
def nextAddress (s : Simulation) : Address := .linkLocal (UInt64.ofNat s.stations.size)

/-- Switches on another station. -/
def addStation (s : Simulation) (seed : UInt64) : Checked Simulation := do
  s.settle (← (Station.new s.nextAddress seed s.now).start s.now)

/-- Makes a station the root of the simulated instance.  If the station refuses, it stays what it
was. -/
def form (s : Simulation) (a : Address) : Checked Simulation :=
  match s.stations.find? a with
  | none => .ok s
  | some t => do
    let o ← t.form simulatedInstance s.params s.now
    s.settle o.state

/-- Hands a message to a station, and tells whether it was a report addressed to that station.
Advertisements of a sender that has not joined say nothing, and a message that the station refuses
is dropped. -/
def hear (s : Simulation) (t : Station) (sender : Address) : Control → Checked (Bool × Station)
  | .dio i l =>
    match (s.stations.find? sender).bind Station.hop with
    | none => .ok (false, t)
    | some hop => do
      let o ← t.heardDio sender hop i l s.params s.now
      return (false, o.state)
  | .dis _ => do return (false, ← t.heardDis s.now)
  | .dao _ parent _ => t.heardDao parent

/-- A message reaches a station. -/
def deliver (s : Simulation) (sender receiver : Address) (c : Control) : Checked Simulation :=
  match s.stations.find? receiver with
  | none => .ok s
  | some t => do
    let (reported, t) ← s.hear t sender c
    let logbook := s.logbook.noteDelivered
    { s with logbook := if reported then logbook.noteReport else logbook }.settle t

/-- The alarm of a station is due, unless its deadline has moved. -/
def wake (s : Simulation) (a : Address) (deadline : Instant) : Checked Simulation :=
  match s.stations.find? a with
  | none => .ok s
  | some t =>
    if t.wake = some deadline then do s.settle (← { t with wake := none }.handleTimer s.now)
    else .ok s

/-! ## Snapshots and scenarios -/

/-- What a station looks like. -/
def portrait (t : Station) : Portrait where
  joined := t.isJoined simulatedInstance
  hop := t.hop
  preferred := t.preferred? simulatedInstance
  counts := t.node.counts
  daosReceived := t.daosReceived

/-- What all stations look like. -/
def snapshot (s : Simulation) : Snapshot where
  time := s.now
  stations := .ofList (s.stations.toList.map fun e => (e.1, portrait e.2))

/-- Puts a snapshot into the logbook. -/
def takeSnapshot (s : Simulation) : Simulation :=
  { s with logbook := s.logbook.addSnapshot s.snapshot }

/-- Takes a regular snapshot if one is due. -/
def sample (s : Simulation) : Simulation :=
  match s.sampling with
  | none => s
  | some p =>
    if p.next ≤ s.now then
      { s.takeSnapshot with sampling := some { p with next := p.next + p.every } }
    else s

/-- Changes a link, if there is one. -/
def adjustLink (s : Simulation) (a b : Address) (f : Link → Link) : Simulation :=
  { s with radio := s.radio.adjustLink a b f }

/-- Changes the world. -/
def act (s : Simulation) : Action → Simulation
  | .disableLink a b => s.adjustLink a b fun l => { l with active := false }
  | .enableLink a b => s.adjustLink a b fun l => { l with active := true }
  | .setLoss a b rate => s.adjustLink a b fun l => l.withLoss rate
  | .setReady a ready => { s with stations := s.stations.adjust a fun t => t.setReady ready }
  | .snapshot => s.takeSnapshot

/-! ## Events -/

/-- Lets something happen. -/
def happen (s : Simulation) : Happening → Checked Simulation
  | .deliver sender receiver c => s.deliver sender receiver c
  | .wake a deadline => s.wake a deadline
  | .act a => .ok (s.act a)

/-- Moves the present on.  It never goes back. -/
def advance (s : Simulation) (time : Instant) : Simulation := { s with now := s.now.later time }

/-- Lets the first event on the agenda happen, given the agenda without it. -/
def step (s : Simulation) (time : Instant) (h : Happening) (rest : Agenda) :
    Checked Simulation := do
  return (← ({ s with agenda := rest }.advance time).happen h).sample

end Simulation

end TrickleNet

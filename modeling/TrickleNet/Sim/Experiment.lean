import TrickleNet.Sim.Run
/-!
# Experiments

An `Experiment` describes a network and what will be done to it.  Station `i` has the link-local
address of that index, and station 0 becomes the root.
-/

namespace TrickleNet

/-- How the stations of an experiment are laid out. -/
inductive Layout where
  /-- Every station hears every other one. -/
  | full
  /-- Each station hears the ones next to it. -/
  | chain
  /-- Station 0 hears every other one. -/
  | star
  /-- As a radio map says. -/
  | custom (radio : RadioMap)

/-- The radio map of a layout. -/
def Layout.radio (l : Layout) (nodes : List Address) : RadioMap :=
  match l with
  | .full => .full nodes
  | .chain => .chain nodes
  | .star => .star nodes
  | .custom radio => radio

/-- A network and what will be done to it. -/
structure Experiment where
  /-- The number of stations. -/
  size : Nat := 0
  /-- The seed of all draws. -/
  seed : UInt64 := 42
  /-- How the stations are laid out. -/
  layout : Layout := .full
  /-- The trickle parameters that the root advertises. -/
  params : TrickleParams := {}
  /-- The loss rate of every link, if that is above zero. -/
  loss : Float := 0.0
  /-- The delay of every link, if it is not that of the layout. -/
  delay : Option Span := none
  /-- The jitter of every link, if that is above zero. -/
  jitter : Span := .zero
  /-- The stations that start without a usable link-local address. -/
  unready : List Nat := []
  /-- What will be done, in the order in which it is scheduled. -/
  actions : List (Instant × Action) := []
  /-- The time between regular snapshots. -/
  snapshotEvery : Option Span := none

namespace Experiment

/-- Stations that all hear each other, with trickle intervals of 1024 ms that never grow. -/
def steady (size : Nat) : Experiment :=
  { size, params := { minExponent := 10, doublings := 0 } }

/-- The address of a station. -/
def address (i : Nat) : Address := .linkLocal (UInt64.ofNat i)

/-- The addresses of all stations. -/
def addresses (e : Experiment) : List Address := (List.range e.size).map address

/-! ## Describing an experiment -/

/-- The experiment with a loss rate on every link, brought into the unit interval. -/
def withLoss (e : Experiment) (rate : Float) : Experiment := { e with loss := clampUnit rate }

/-- The experiment with one more thing to do. -/
def actAt (e : Experiment) (time : Instant) (a : Action) : Experiment :=
  { e with actions := e.actions ++ [(time, a)] }

/-- The experiment in which the link between two stations goes down. -/
def disableLinkAt (e : Experiment) (time : Instant) (i j : Nat) : Experiment :=
  e.actAt time (.disableLink (address i) (address j))

/-- The experiment in which the link between two stations comes up. -/
def enableLinkAt (e : Experiment) (time : Instant) (i j : Nat) : Experiment :=
  e.actAt time (.enableLink (address i) (address j))

/-- The experiment in which a station has no usable link-local address until some time. -/
def readyAt (e : Experiment) (time : Instant) (i : Nat) : Experiment :=
  { e with unready := e.unready ++ [i] }.actAt time (.setReady (address i) true)

/-- The experiment with a snapshot at some time. -/
def snapshotAt (e : Experiment) (time : Instant) : Experiment := e.actAt time .snapshot

/-! ## Setting it up -/

/-- Gives a link of the layout what the experiment says of every link. -/
def configure (e : Experiment) (l : Link) : Link where
  loss := if 0.0 < e.loss then e.loss else l.loss
  delay := e.delay.getD l.delay
  jitter := if e.jitter = .zero then l.jitter else e.jitter
  active := l.active

/-- The radio map of the experiment. -/
def radio (e : Experiment) : RadioMap := (e.layout.radio e.addresses).mapLinks e.configure

/-- The seed of a station. -/
def seedOf (e : Experiment) (i : Nat) : UInt64 := e.seed + UInt64.ofNat i * 1000

/-- Switches on a station. -/
def addStation (e : Experiment) (s : Simulation) (i : Nat) : Checked Simulation := do
  let s ← s.addStation (e.seedOf i)
  return if i ∈ e.unready then s.act (.setReady (address i) false) else s

/-- The simulation without stations. -/
def world (e : Experiment) : Simulation :=
  let s := { Simulation.new e.seed with radio := e.radio, params := e.params }
  match e.snapshotEvery with
  | none => s
  | some every => s.sampleEvery every

/-- Sets the experiment up: the stations are switched on, the root forms its instance, and what
will be done goes on the agenda. -/
def setUp (e : Experiment) : Checked Simulation := do
  let s ← (List.range e.size).foldlM e.addStation e.world
  let s ← if e.size = 0 then pure s else s.form (address 0)
  e.actions.foldlM (fun s a => s.schedule a.1 (.act a.2)) s

end Experiment

end TrickleNet

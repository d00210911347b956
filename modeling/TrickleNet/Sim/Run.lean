import TrickleNet.Sim.Simulation
/-!
# Runs

A run lets events happen in the order of the agenda, up to an instant or up to a number of events,
and ends with a snapshot.

An event may schedule others at the same instant, so a run up to an instant is bounded by the
numbers that the agenda can still give out: `Agenda.budget` falls with every event, and nothing is
left to happen when it is used up.
-/

namespace TrickleNet.Simulation

/-- Lets events happen that are due by `limit`, at most `budget` of them. -/
def runEvents (limit : Instant) : (budget : Nat) → Simulation → Checked Simulation
  | 0, s => .ok s
  | budget + 1, s => match s.agenda.next? with
    | none => .ok s
    | some (slot, h, rest) =>
      if slot.time ≤ limit then do runEvents limit budget (← s.step slot.time h rest)
      else .ok s

/-- The report at the end of a run. -/
def report (s : Simulation) : RunReport where
  endTime := s.now
  logbook := s.logbook
  exhausted := s.agenda.isEmpty

/-- Runs until an instant, which becomes the present unless that is later. -/
def runUntil (s : Simulation) (limit : Instant) : Checked Simulation := do
  let s ← runEvents limit s.agenda.budget s
  return (s.advance limit).takeSnapshot

/-- Runs for some time. -/
def runFor (s : Simulation) (span : Span) : Checked Simulation := s.runUntil (s.now + span)

/-- Lets a number of events happen, or fewer if nothing is left. -/
def runSteps (s : Simulation) (count : Nat) : Checked Simulation := do
  let s ← runEvents .last count s
  return s.takeSnapshot

end TrickleNet.Simulation

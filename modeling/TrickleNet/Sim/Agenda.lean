import TrickleNet.Message
/-!
# The agenda of a simulation

An `Agenda` holds what is still to happen, in the order in which it happens: by time, and at one
time in the order in which it was scheduled.
-/

namespace TrickleNet

/-- A change to the world that a scenario schedules. -/
inductive Action where
  /-- Take a link down. -/
  | disableLink (a b : Address)
  /-- Bring a link up. -/
  | enableLink (a b : Address)
  /-- Change the loss rate of a link. -/
  | setLoss (a b : Address) (rate : Float)
  /-- Make a node's link-local address usable, or unusable. -/
  | setReady (node : Address) (ready : Bool)
  /-- Record the state of every node. -/
  | snapshot

/-- Something that happens in a simulation. -/
inductive Happening where
  /-- A control message reaches a node. -/
  | deliver (sender receiver : Address) (message : Control)
  /-- The earliest alarm of a node is due. -/
  | wake (node : Address) (deadline : Instant)
  /-- The scenario changes the world. -/
  | act (action : Action)

namespace Agenda

/-- A place in the order of an agenda. -/
structure Slot where
  /-- When it happens. -/
  time : Instant
  /-- How many things were scheduled before it. -/
  number : Nat
deriving DecidableEq, Repr

/-- Compares two places by urgency: `.gt` says that the first one comes up before the second. -/
def Slot.urgency (s s' : Slot) : Ordering :=
  (compare s'.time.ticks s.time.ticks).then (compare s'.number s.number)

/-- Inserts something before the first entry that is less urgent. -/
def place {α : Type} (s : Slot) (a : α) : List (Slot × α) → List (Slot × α)
  | [] => [(s, a)]
  | e :: es => if s.urgency e.1 = .gt then (s, a) :: e :: es else e :: place s a es

/-- The entries in the order in which they come up. -/
def sort {α : Type} (l : List (Slot × α)) : List (Slot × α) :=
  l.foldl (fun es e => place e.1 e.2 es) []

end Agenda

/-- What is still to happen in a simulation. -/
structure Agenda where
  /-- What is to happen, the most urgent first. -/
  entries : List (Agenda.Slot × Happening) := []
  /-- How many things were scheduled so far. -/
  nextNumber : Nat := 0

namespace Agenda

instance : Inhabited Agenda := ⟨{}⟩

/-- Schedules something.  The count of what was scheduled is a 64-bit word. -/
def schedule (q : Agenda) (time : Instant) (h : Happening) : Checked Agenda := do
  let nextNumber ← addChecked wordLimit64 q.nextNumber 1
  return { entries := place ⟨time, q.nextNumber⟩ h q.entries, nextNumber }

/-- Whether nothing is left to happen. -/
def isEmpty (q : Agenda) : Bool := q.entries.isEmpty

/-- What happens next, and the rest. -/
def next? (q : Agenda) : Option (Slot × Happening × Agenda) :=
  match q.entries with
  | [] => none
  | (s, h) :: entries => some (s, h, { q with entries })

/-- A bound on the events that can still come up: those that wait, and one for each number that is
left.  Scheduling keeps it and every event that comes up lowers it. -/
def budget (q : Agenda) : Nat := q.entries.length + (wordLimit64 - q.nextNumber)

end Agenda

end TrickleNet

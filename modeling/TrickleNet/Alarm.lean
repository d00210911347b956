import TrickleNet.Address
import TrickleNet.Params
import TrickleNet.Table
import TrickleNet.Ticks
/-!
# Alarms

An `AlarmTable` is a service of one-shot timers, one for each `Purpose`.  An alarm is armed with a
start and an interval and rings once its deadline has come.  `AlarmTable.ring?` takes the alarm
that is due first; of alarms with one deadline, the one that was armed first rings first.  An alarm
that has rung keeps its slot, so that `AlarmTable.rearm` can measure the next interval from the
deadline and not from the moment at which the alarm was noticed.
-/

namespace TrickleNet

/-- What an alarm is for. -/
inductive Purpose where
  /-- The maintenance ticker of the node. -/
  | upkeep
  /-- The trickle timer of an instance. -/
  | advertise (inst : InstanceId)
  /-- The report of an instance. -/
  | report (inst : InstanceId)
  /-- The close of the reception window of a parent. -/
  | watch (inst : InstanceId) (parent : Address)
  /-- The next probe of a silent parent. -/
  | probe (inst : InstanceId) (parent : Address)
deriving DecidableEq, Repr

namespace Purpose

/-- The instance that the alarm belongs to, if any. -/
def inst? : Purpose → Option InstanceId
  | upkeep => none
  | advertise i | report i => some i
  | watch i _ | probe i _ => some i

/-- The place of the kind of purpose in the order of alarms. -/
def kind : Purpose → Nat
  | upkeep => 0
  | advertise _ => 1
  | report _ => 2
  | watch _ _ => 3
  | probe _ _ => 4

/-- The parent that the alarm is about, as a number. -/
def parentRank : Purpose → Nat
  | watch _ a | probe _ a => rank a
  | _ => 0

/-- The instance that the alarm belongs to, as a number. -/
def instRank (p : Purpose) : Nat := (p.inst?.getD 0).toNat

theorem instRank_lt (p : Purpose) : p.instRank < 256 := UInt8.toNat_lt _

theorem parentRank_lt (p : Purpose) : p.parentRank < Address.count := by
  cases p <;> first | exact Address.rank_lt _ | simp [parentRank]

/-- Alarms are ordered by kind, then by instance, then by parent. -/
instance : Ranked Purpose where
  rank p := (p.kind * 256 + p.instRank) * Address.count + p.parentRank
  rank_inj {p q} h := by
    have := p.instRank_lt
    have := q.instRank_lt
    have := p.parentRank_lt
    have := q.parentRank_lt
    simp only [Address.count] at *
    have hkind : p.kind = q.kind := by omega
    have hinst : p.instRank = q.instRank := by omega
    have hparent : p.parentRank = q.parentRank := by omega
    cases p <;> cases q <;> first
      | rfl
      | exact congrArg _ (UInt8.toNat_inj.1 hinst)
      | exact congr (congrArg _ (UInt8.toNat_inj.1 hinst)) (rank_eq_iff.1 hparent)
      | simp [kind] at hkind

end Purpose

/-- A one-shot timer. -/
structure Alarm where
  /-- When the interval began. -/
  start : Instant
  /-- How long after its start the alarm is due. -/
  interval : Span
  /-- The number of the last arming, counted over the whole table. -/
  number : UInt64
  /-- Whether the alarm is still to ring. -/
  armed : Bool
deriving DecidableEq, Repr

namespace Alarm

/-- When the alarm is due. -/
def deadline (a : Alarm) : Instant := a.start + a.interval

/-- Whether the alarm is to ring at or before `now`. -/
def isDue (a : Alarm) (now : Instant) : Bool := a.armed && a.deadline ≤ now

/-- Whether `a` is due before `b`, or with it and armed earlier. -/
def Precedes (a b : Alarm) : Prop :=
  a.deadline < b.deadline ∨ a.deadline = b.deadline ∧ a.number < b.number

instance (a b : Alarm) : Decidable (a.Precedes b) := inferInstanceAs (Decidable (_ ∨ _))

end Alarm

/-- An alarm that rings. -/
structure Ring where
  /-- What the alarm was for. -/
  purpose : Purpose
  /-- When it was due. -/
  deadline : Instant
deriving DecidableEq, Repr

/-- A service of one-shot timers. -/
@[ext] structure AlarmTable where
  /-- The alarm of each purpose that was ever armed and not forgotten. -/
  slots : Table Purpose Alarm := ∅
  /-- The number of the next arming. -/
  nextNumber : UInt64 := 0

namespace AlarmTable

instance : Inhabited AlarmTable := ⟨{}⟩

instance : EmptyCollection AlarmTable := ⟨{}⟩

/-- Arms an alarm to ring a span after `now`, whatever it was armed for before. -/
def set (t : AlarmTable) (p : Purpose) (now : Instant) (after : Span) : AlarmTable where
  slots :=
    t.slots.insert p { start := now, interval := after, number := t.nextNumber, armed := true }
  nextNumber := t.nextNumber + 1

/-- Arms an alarm for another interval, counted from its last deadline.  This takes an arming
number even if the table does not hold the alarm. -/
def rearm (t : AlarmTable) (p : Purpose) : AlarmTable where
  slots := t.slots.adjust p fun a =>
    { a with start := a.deadline, number := t.nextNumber, armed := true }
  nextNumber := t.nextNumber + 1

/-- Silences an alarm and keeps its slot. -/
def stop (t : AlarmTable) (p : Purpose) : AlarmTable :=
  { t with slots := t.slots.adjust p fun a => { a with armed := false } }

/-- Forgets an alarm. -/
def remove (t : AlarmTable) (p : Purpose) : AlarmTable := { t with slots := t.slots.erase p }

/-- Forgets every alarm of an instance. -/
def removeInstance (t : AlarmTable) (i : InstanceId) : AlarmTable :=
  { t with slots := t.slots.filter fun p _ => p.inst? != some i }

/-- When an alarm will ring, if it is armed. -/
def deadline? (t : AlarmTable) (p : Purpose) : Option Instant :=
  match t.slots.find? p with
  | some a => if a.armed then some a.deadline else none
  | none => none

/-- Whether an alarm is to ring. -/
def isArmed (t : AlarmTable) (p : Purpose) : Bool := (t.deadline? p).isSome

/-- The alarms that are to ring, in the order of their purposes. -/
def armed (t : AlarmTable) : List Ring :=
  (t.slots.toList.filter fun e => e.2.armed).map fun e => ⟨e.1, e.2.deadline⟩

/-- The earliest deadline of an alarm that is to ring. -/
def nextDeadline? (t : AlarmTable) : Option Instant :=
  t.armed.foldr (fun r m => some (match m with
    | none => r.deadline
    | some d => if r.deadline ≤ d then r.deadline else d)) none

/-- Of a list of alarms the one that precedes the others. -/
def foremost : List (Purpose × Alarm) → Option (Purpose × Alarm)
  | [] => none
  | e :: es =>
    match foremost es with
    | none => some e
    | some b => if b.2.Precedes e.2 then some b else some e

/-- The alarm that rings first at or before `now`. -/
def due? (t : AlarmTable) (now : Instant) : Option (Purpose × Alarm) :=
  foremost (t.slots.toList.filter fun e => e.2.isDue now)

/-- Lets the first alarm that is due at `now` ring, which silences it and keeps its slot. -/
def ring? (t : AlarmTable) (now : Instant) : Option (Ring × AlarmTable) :=
  (t.due? now).map fun e => (⟨e.1, e.2.deadline⟩, t.stop e.1)

/-! ## What each operation does to the deadlines -/

variable {t : AlarmTable} {p q : Purpose} {now : Instant} {after : Span} {i : InstanceId}

@[simp] theorem deadline?_empty : (∅ : AlarmTable).deadline? q = none := rfl

@[simp] theorem deadline?_set :
    (t.set p now after).deadline? q = if q = p then some (now + after) else t.deadline? q := by
  simp only [deadline?, set, Table.find?_insert]
  by_cases h : q = p <;> simp [h, Alarm.deadline]

@[simp] theorem deadline?_stop :
    (t.stop p).deadline? q = if q = p then none else t.deadline? q := by
  simp only [deadline?, stop, Table.find?_adjust]
  by_cases h : q = p
  · cases hq : t.slots.find? q <;> simp [h]
  · simp [h]

@[simp] theorem deadline?_remove :
    (t.remove p).deadline? q = if q = p then none else t.deadline? q := by
  simp only [deadline?, remove, Table.find?_erase]
  by_cases h : q = p <;> simp [h]

@[simp] theorem deadline?_removeInstance :
    (t.removeInstance i).deadline? q = if q.inst? = some i then none else t.deadline? q := by
  simp only [deadline?, removeInstance, Table.find?_filter]
  by_cases h : q.inst? = some i <;> cases t.slots.find? q <;> simp [h, Option.filter]

end AlarmTable

end TrickleNet

import Mathlib
import TrickleNet.Alarm
import TrickleNet.Proofs.Keys
/-!
# The slots of alarms

An alarm keeps its slot after it has rung, until it is removed.  `AlarmTable.Holds` says that a
table has a slot for a purpose, armed or not, and each operation has a lemma about it; an alarm that
is armed again is set for an interval after its last deadline (`AlarmTable.rearm_eq_set`).
-/

namespace TrickleNet.AlarmTable

variable {t : AlarmTable} {p q : Purpose} {a : Alarm} {now d : Instant} {after : Span}
  {i : InstanceId}

/-- The table has a slot for the alarm, armed or not. -/
def Holds (t : AlarmTable) (p : Purpose) : Prop := t.slots.contains p = true

theorem holds_iff : t.Holds p ↔ ∃ a, t.slots.find? p = some a := Table.contains_iff

theorem not_holds_empty : ¬(∅ : AlarmTable).Holds q := Bool.false_ne_true

@[simp] theorem holds_set : (t.set p now after).Holds q ↔ q = p ∨ t.Holds q := by
  simp [Holds, set]

@[simp] theorem holds_stop : (t.stop p).Holds q ↔ t.Holds q := by
  simp [Holds, stop]

@[simp] theorem holds_remove : (t.remove p).Holds q ↔ q ≠ p ∧ t.Holds q := by
  simp [Holds, remove]

@[simp] theorem holds_removeInstance :
    (t.removeInstance i).Holds q ↔ q.inst? ≠ some i ∧ t.Holds q := by
  simp only [holds_iff, removeInstance, Table.find?_filter]
  cases t.slots.find? q <;> by_cases h : q.inst? = some i <;> simp [Option.filter, h]

/-- An alarm that is armed has a slot. -/
theorem holds_of_deadline? (h : t.deadline? p = some d) : t.Holds p := by
  rw [holds_iff]
  unfold deadline? at h
  split at h
  · rename_i a ha
    exact ⟨a, ha⟩
  · cases h

theorem isArmed_iff : t.isArmed p = true ↔ ∃ d, t.deadline? p = some d := Option.isSome_iff_exists

theorem isArmed_eq_false_iff : t.isArmed p = false ↔ t.deadline? p = none := by
  rw [isArmed, Option.isSome_eq_false_iff, Option.isNone_iff_eq_none]

/-- An alarm that is silent stays as it is when it is silenced. -/
@[simp] theorem stop_stop : (t.stop p).stop p = t.stop p := by
  refine AlarmTable.ext (Table.ext_find? fun q => ?_) rfl
  simp only [stop, Table.find?_adjust]
  split <;> simp [Function.comp_def]

/-- Silencing an alarm first makes no difference to setting it. -/
@[simp] theorem set_stop : (t.stop p).set p now after = t.set p now after := by
  refine AlarmTable.ext (Table.ext_find? fun q => ?_) rfl
  simp only [set, stop, Table.find?_insert, Table.find?_adjust]
  split <;> rfl

/-- An alarm that is armed again is set for an interval after its last deadline. -/
theorem rearm_eq_set (h : t.slots.find? p = some a) :
    t.rearm p = t.set p a.deadline a.interval := by
  refine AlarmTable.ext (Table.ext_find? fun q => ?_) rfl
  simp only [set, rearm, Table.find?_insert, Table.find?_adjust]
  split
  · rename_i hq
    rw [hq, h]
    rfl
  · rfl

end TrickleNet.AlarmTable

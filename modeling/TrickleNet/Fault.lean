/-!
# Faults

A computation of this library either finishes or stops with a `Fault`: a machine word that was
about to leave its range, or a firing loop that makes no progress.  Everything that can stop is
written in `Checked`, so that a statement about a run says in its type whether it may stop.

Refusals of a request are something else: they are answers, and the node lives on (see
`TrickleNet.Refusal`).
-/

namespace TrickleNet

/-- Why a computation stopped. -/
inductive Fault where
  /-- A sum left the range of its word. -/
  | addOverflow
  /-- A difference went below zero. -/
  | subOverflow
  /-- Timers kept firing without time moving on. -/
  | stalled
deriving DecidableEq, Repr

/-- The text under which a fault is reported. -/
def Fault.message : Fault → String
  | .addOverflow => "attempt to add with overflow"
  | .subOverflow => "attempt to subtract with overflow"
  | .stalled => "timers fire without progress"

/-- A computation that may stop with a fault. -/
abbrev Checked := Except Fault

/-- A chain of computations finishes when each of them does. -/
theorem Checked.bind_eq_ok_iff {α β : Type} {x : Checked α} {f : α → Checked β} {b : β} :
    x >>= f = .ok b ↔ ∃ a, x = .ok a ∧ f a = .ok b := by
  cases x with
  | error e =>
    constructor
    · intro h
      cases h
    · rintro ⟨a, ha, -⟩
      cases ha
  | ok a =>
    constructor
    · intro h
      exact ⟨a, rfl, h⟩
    · rintro ⟨a', ha, h⟩
      cases ha
      exact h

/-- A chain of computations stops when one of them does. -/
theorem Checked.bind_eq_error_iff {α β : Type} {x : Checked α} {f : α → Checked β} {e : Fault} :
    x >>= f = .error e ↔ x = .error e ∨ ∃ a, x = .ok a ∧ f a = .error e := by
  cases x with
  | error e' =>
    constructor
    · exact fun h => .inl (congrArg Except.error (Except.error.inj h))
    · rintro (h | ⟨a, ha, -⟩)
      · exact congrArg Except.error (Except.error.inj h)
      · cases ha
  | ok a =>
    constructor
    · exact fun h => .inr ⟨a, rfl, h⟩
    · rintro (h | ⟨a', ha, h⟩)
      · cases h
      · cases ha
        exact h

/-- How many values a 32-bit word has. -/
abbrev wordLimit32 : Nat := 4294967296

/-- How many values a 64-bit word has. -/
abbrev wordLimit64 : Nat := 18446744073709551616

/-- The sum of two numbers, which must stay below a limit. -/
def addChecked (limit a b : Nat) : Checked Nat :=
  if a + b < limit then .ok (a + b) else .error .addOverflow

theorem addChecked_eq_ok_iff {limit a b c : Nat} :
    addChecked limit a b = .ok c ↔ c = a + b ∧ a + b < limit := by
  unfold addChecked
  split <;> simp_all [eq_comm]

theorem addChecked_eq_error_iff {limit a b : Nat} {f : Fault} :
    addChecked limit a b = .error f ↔ f = .addOverflow ∧ limit ≤ a + b := by
  unfold addChecked
  split
  · simp_all
  · simp_all [eq_comm]

end TrickleNet

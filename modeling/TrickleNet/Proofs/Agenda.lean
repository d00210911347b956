import Mathlib
import TrickleNet.Sim.Agenda
/-!
# The order of an agenda

An agenda is `Agenda.Ordered` if its entries stand in the order of their times, so the first one is
as early as any (`Ordered.le_of_next?`).  Scheduling puts one more entry in its place.

`Agenda.Grows P q q'` says that `q'` holds the entries of `q` and others that satisfy `P`.  This is
all that a step of a simulation does to the agenda once an event has been taken from it, and the
budget of the agenda stays what it was: an entry more takes a number more.
-/

namespace TrickleNet.Agenda

variable {α : Type} {s s' : Slot} {a : α} {e : Slot × α} {l : List (Slot × α)}

/-! ## Urgency -/

/-- The earlier of two places comes up before the other one, and of two at one time the one that was
scheduled first. -/
theorem Slot.urgency_eq_gt_iff :
    s.urgency s' = .gt ↔ s.time < s'.time ∨ s.time = s'.time ∧ s.number < s'.number := by
  rw [Slot.urgency, Ordering.then_eq_gt, Nat.compare_eq_gt, Nat.compare_eq_gt, Nat.compare_eq_eq,
    Instant.lt_iff, Instant.ext_iff, eq_comm (a := s'.time.ticks)]

/-- What is placed among entries is one more of them. -/
theorem perm_place : (place s a l).Perm ((s, a) :: l) := by
  induction l with
  | nil => exact .refl _
  | cons x l ih =>
    unfold place
    split
    · exact .refl _
    · exact (ih.cons x).trans (.swap _ _ l)

theorem mem_place : e ∈ place s a l ↔ e = (s, a) ∨ e ∈ l := by
  rw [perm_place.mem_iff, List.mem_cons]

theorem length_place : (place s a l).length = l.length + 1 := by
  rw [perm_place.length_eq, List.length_cons]

/-- An entry finds its place among entries that stand in the order of their times. -/
theorem pairwise_place (h : l.Pairwise fun e e' => e.1.time ≤ e'.1.time) :
    (place s a l).Pairwise fun e e' => e.1.time ≤ e'.1.time := by
  induction l with
  | nil => simp [place]
  | cons x l ih =>
    obtain ⟨hx, hl⟩ := List.pairwise_cons.1 h
    unfold place
    split
    · rename_i hgt
      have hle : s.time ≤ x.1.time := by
        rw [Slot.urgency_eq_gt_iff, Instant.lt_iff, Instant.ext_iff] at hgt
        rw [Instant.le_iff]
        omega
      refine List.pairwise_cons.2 ⟨fun e he => ?_, h⟩
      rcases List.mem_cons.1 he with rfl | he
      · exact hle
      · exact Nat.le_trans hle (hx e he)
    · rename_i hgt
      have hle : x.1.time ≤ s.time := by
        rw [Slot.urgency_eq_gt_iff, Instant.lt_iff, Instant.ext_iff] at hgt
        rw [Instant.le_iff]
        omega
      refine List.pairwise_cons.2 ⟨fun e he => ?_, ih hl⟩
      rcases mem_place.1 he with rfl | he
      · exact hle
      · exact hx e he

/-! ## Agendas in order -/

variable {q q' q'' rest : Agenda} {h : Happening} {time : Instant} {P Q : Slot → Happening → Prop}
  {x : Slot × Happening}

/-- The entries stand in the order of their times. -/
def Ordered (q : Agenda) : Prop := q.entries.Pairwise fun e e' => e.1.time ≤ e'.1.time

theorem next?_eq_none_iff : q.next? = none ↔ q.entries = [] := by
  unfold next?
  split <;> simp_all

/-- What comes up is the first entry. -/
theorem next?_eq_some (hnext : q.next? = some (s, h, rest)) :
    q.entries = (s, h) :: rest.entries ∧ rest.nextNumber = q.nextNumber := by
  unfold next? at hnext
  split at hnext
  · cases hnext
  · rename_i heq
    cases hnext
    exact ⟨heq, rfl⟩

/-- An event that comes up lowers the budget. -/
theorem budget_of_next? (hnext : q.next? = some (s, h, rest)) : q.budget = rest.budget + 1 := by
  obtain ⟨hentries, hnumber⟩ := next?_eq_some hnext
  rw [budget, budget, hentries, hnumber, List.length_cons]
  omega

/-- What comes up is as early as any entry. -/
theorem Ordered.le_of_next? (hq : q.Ordered) (hnext : q.next? = some (s, h, rest))
    (hx : x ∈ q.entries) : s.time ≤ x.1.time := by
  obtain ⟨hentries, -⟩ := next?_eq_some hnext
  rw [Ordered, hentries] at hq
  rw [hentries] at hx
  rcases List.mem_cons.1 hx with rfl | hx
  · exact Nat.le_refl _
  · exact (List.pairwise_cons.1 hq).1 x hx

theorem Ordered.of_next? (hq : q.Ordered) (hnext : q.next? = some (s, h, rest)) : rest.Ordered := by
  obtain ⟨hentries, -⟩ := next?_eq_some hnext
  rw [Ordered, hentries] at hq
  exact (List.pairwise_cons.1 hq).2

theorem schedule_eq_ok (hs : q.schedule time h = .ok q') :
    q'.entries = place ⟨time, q.nextNumber⟩ h q.entries ∧ q'.nextNumber = q.nextNumber + 1 ∧
      q.nextNumber + 1 < wordLimit64 := by
  obtain ⟨nextNumber, hnumber, hs⟩ := Checked.bind_eq_ok_iff.1 hs
  obtain ⟨rfl, hlt⟩ := addChecked_eq_ok_iff.1 hnumber
  cases hs
  exact ⟨rfl, rfl, hlt⟩

theorem schedule_eq_error_iff {f : Fault} :
    q.schedule time h = .error f ↔ f = .addOverflow ∧ wordLimit64 ≤ q.nextNumber + 1 := by
  rw [← addChecked_eq_error_iff, schedule]
  cases addChecked wordLimit64 q.nextNumber 1 <;> simp [bind, Except.bind, pure, Except.pure]

/-! ## Agendas that grow -/

/-- More is scheduled, all of which satisfies `P`. -/
structure Grows (P : Slot → Happening → Prop) (q q' : Agenda) : Prop where
  kept : ∀ e ∈ q.entries, e ∈ q'.entries
  added : ∀ e ∈ q'.entries, e ∈ q.entries ∨ P e.1 e.2
  ordered : q.Ordered → q'.Ordered
  number_le : q.nextNumber ≤ q'.nextNumber
  number_lt : q.nextNumber < wordLimit64 → q'.nextNumber < wordLimit64
  budget : q'.budget = q.budget

namespace Grows

theorem refl (q : Agenda) : q.Grows P q :=
  ⟨fun _ he => he, fun _ he => .inl he, id, Nat.le_refl _, id, rfl⟩

theorem trans (h : q.Grows P q') (h' : q'.Grows P q'') : q.Grows P q'' where
  kept e he := h'.kept e (h.kept e he)
  added e he := (h'.added e he).elim (h.added e) .inr
  ordered := h'.ordered ∘ h.ordered
  number_le := h.number_le.trans h'.number_le
  number_lt := h'.number_lt ∘ h.number_lt
  budget := h'.budget.trans h.budget

theorem mono (h : q.Grows P q') (hPQ : ∀ s h, P s h → Q s h) : q.Grows Q q' where
  kept := h.kept
  added e he := (h.added e he).imp_right (hPQ e.1 e.2)
  ordered := h.ordered
  number_le := h.number_le
  number_lt := h.number_lt
  budget := h.budget

end Grows

/-- Scheduling adds one entry and keeps the budget. -/
theorem grows_schedule (hs : q.schedule time h = .ok q') (hP : ∀ number, P ⟨time, number⟩ h) :
    q.Grows P q' := by
  obtain ⟨hentries, hnumber, hlt⟩ := schedule_eq_ok hs
  constructor
  case kept =>
    intro e he
    rw [hentries]
    exact mem_place.2 (.inr he)
  case added =>
    intro e he
    rw [hentries] at he
    rcases mem_place.1 he with rfl | he
    · exact .inr (hP _)
    · exact .inl he
  case ordered =>
    intro hq
    rw [Ordered, hentries]
    exact pairwise_place hq
  case number_le => omega
  case number_lt => omega
  case budget =>
    rw [budget, budget, hentries, hnumber, length_place]
    omega

/-- What was scheduled is on the agenda. -/
theorem mem_schedule (hs : q.schedule time h = .ok q') :
    (⟨time, q.nextNumber⟩, h) ∈ q'.entries := by
  obtain ⟨hentries, -⟩ := schedule_eq_ok hs
  rw [hentries]
  exact mem_place.2 (.inl rfl)

end TrickleNet.Agenda

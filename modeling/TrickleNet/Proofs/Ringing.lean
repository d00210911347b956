import Mathlib
import TrickleNet.Alarm
/-!
# Which alarm rings

`AlarmTable.ring?` is observed through `AlarmTable.deadline?`: nothing rings exactly when every
armed alarm is still to come (`ring?_eq_none_iff`), and what rings was armed, was due, and has the
earliest deadline of all (`ring?_eq_some`).  The numbers of the armings, which decide between
alarms of one deadline, do not show here.
-/

namespace TrickleNet.AlarmTable

variable {t u : AlarmTable} {p q : Purpose} {now d : Instant} {r : Ring}

theorem deadline?_eq_some_iff :
    t.deadline? p = some d ↔ ∃ a, (p, a) ∈ t.slots.toList ∧ a.armed = true ∧ a.deadline = d := by
  simp only [← Table.find?_eq_some_iff, deadline?]
  cases t.slots.find? p with
  | none => simp
  | some a => by_cases h : a.armed <;> simp [h]

/-! ## The first of a list of alarms -/

variable {l : List (Purpose × Alarm)} {e x : Purpose × Alarm}

theorem foremost_eq_none_iff : foremost l = none ↔ l = [] := by
  cases l with
  | nil => simp [foremost]
  | cons e l =>
    simp only [foremost, reduceCtorEq, iff_false]
    split
    · simp
    · split <;> simp

theorem foremost_mem (h : foremost l = some e) : e ∈ l := by
  induction l generalizing e with
  | nil => cases h
  | cons y l ih =>
    simp only [foremost] at h
    split at h
    · simp_all
    · rename_i b hb
      split at h <;> obtain rfl := Option.some.inj h
      · exact List.mem_cons_of_mem _ (ih hb)
      · exact List.mem_cons_self

/-- The first alarm of a list has the earliest deadline. -/
theorem foremost_deadline_le (h : foremost l = some e) (hx : x ∈ l) :
    e.2.deadline ≤ x.2.deadline := by
  induction l generalizing e with
  | nil => cases hx
  | cons y l ih =>
    simp only [foremost] at h
    split at h
    · rename_i hnone
      obtain rfl := Option.some.inj h
      rw [foremost_eq_none_iff] at hnone
      subst hnone
      obtain rfl := List.mem_singleton.1 hx
      exact Nat.le_refl _
    · rename_i b hb
      have hmem : x ∈ l → b.2.deadline ≤ x.2.deadline := ih hb
      simp only [Alarm.Precedes, Instant.lt_iff, Instant.le_iff, Instant.ext_iff] at h hmem ⊢
      split at h <;> obtain rfl := Option.some.inj h
      · rcases List.mem_cons.1 hx with rfl | hx
        · omega
        · exact hmem hx
      · rcases List.mem_cons.1 hx with rfl | hx
        · exact Nat.le_refl _
        · have := hmem hx
          omega

/-! ## The alarm that is due -/

theorem due?_eq_none_iff : t.due? now = none ↔ ∀ p d, t.deadline? p = some d → now < d := by
  simp only [due?, foremost_eq_none_iff, List.filter_eq_nil_iff, Alarm.isDue, Bool.and_eq_true,
    decide_eq_true_eq, not_and, deadline?_eq_some_iff, Instant.le_iff, Instant.lt_iff]
  constructor
  · rintro h p d ⟨a, ha, harmed, rfl⟩
    have hlt : ¬a.deadline.ticks ≤ now.ticks := h (p, a) ha harmed
    omega
  · intro h e he harmed
    have := h e.1 e.2.deadline ⟨e.2, he, harmed, rfl⟩
    omega

theorem due?_eq_some (h : t.due? now = some e) :
    t.deadline? e.1 = some e.2.deadline ∧ e.2.deadline ≤ now ∧
      ∀ q d, t.deadline? q = some d → e.2.deadline ≤ d := by
  have hmem := foremost_mem h
  simp only [List.mem_filter, Alarm.isDue, Bool.and_eq_true, decide_eq_true_eq] at hmem
  obtain ⟨hslot, harmed, hdue⟩ := hmem
  refine ⟨deadline?_eq_some_iff.2 ⟨e.2, hslot, harmed, rfl⟩, hdue, fun q d hq => ?_⟩
  obtain ⟨a, ha, harmed', rfl⟩ := deadline?_eq_some_iff.1 hq
  by_cases hle : a.deadline ≤ now
  · exact foremost_deadline_le h (x := (q, a))
      (List.mem_filter.2 ⟨ha, by simp [Alarm.isDue, harmed', hle]⟩)
  · rw [Instant.le_iff] at hle hdue ⊢
    omega

theorem ring?_eq_none_iff : t.ring? now = none ↔ ∀ p d, t.deadline? p = some d → now < d := by
  rw [ring?, Option.map_eq_none_iff, due?_eq_none_iff]

/-- What rings was armed for its deadline, which has come, and no alarm had an earlier one. -/
theorem ring?_eq_some (h : t.ring? now = some (r, u)) :
    t.deadline? r.purpose = some r.deadline ∧ r.deadline ≤ now ∧ u = t.stop r.purpose ∧
      ∀ q d, t.deadline? q = some d → r.deadline ≤ d := by
  obtain ⟨e, he, heq⟩ := Option.map_eq_some_iff.1 h
  obtain ⟨hd, hle, hfirst⟩ := due?_eq_some he
  cases heq
  exact ⟨hd, hle, rfl, hfirst⟩

/-- The next deadline is that of an alarm. -/
theorem exists_of_nextDeadline? (h : t.nextDeadline? = some d) : ∃ p, t.deadline? p = some d := by
  have hmem : ∃ r ∈ t.armed, r.deadline = d := by
    unfold nextDeadline? at h
    generalize t.armed = rs at h ⊢
    induction rs generalizing d with
    | nil => cases h
    | cons r rs ih =>
      rw [List.foldr_cons] at h
      split at h
      · exact ⟨r, List.mem_cons_self, Option.some.inj h⟩
      · rename_i e he
        split at h
        · exact ⟨r, List.mem_cons_self, Option.some.inj h⟩
        · obtain ⟨r', hr', heq⟩ := ih he
          exact ⟨r', List.mem_cons_of_mem r hr', heq.trans (Option.some.inj h)⟩
  obtain ⟨r, hr, rfl⟩ := hmem
  simp only [armed, List.mem_map, List.mem_filter] at hr
  obtain ⟨e, ⟨he, harmed⟩, rfl⟩ := hr
  exact ⟨e.1, deadline?_eq_some_iff.2 ⟨e.2, he, harmed, rfl⟩⟩

/-- An alarm that is armed again is due one interval after its last deadline. -/
theorem deadline?_rearm :
    (t.rearm p).deadline? q =
      if q = p then (t.slots.find? p).map fun a => a.deadline + a.interval else t.deadline? q := by
  simp only [deadline?, rearm, Table.find?_adjust]
  by_cases h : q = p
  · subst h
    cases t.slots.find? q <;> simp [Alarm.deadline]
  · simp [h]

end TrickleNet.AlarmTable

import Mathlib
import TrickleNet.Table
/-!
# Tables and their keys

A table is determined by what is found in it (`Table.ext_find?`), and the list of its keys by which
keys it holds (`Table.keys_eq_of_contains`).  So an update that holds the same keys leaves the keys
and the size alone, and one that changes what is found at one key changes a sum over the values by
as much (`Table.sum_values_of_ne`).
-/

namespace TrickleNet.Table

variable {κ α β : Type} [Ranked κ] {t : Table κ α} {u : Table κ β} {k k' : κ} {v : α}

@[simp] theorem length_keys (t : Table κ α) : t.keys.length = t.size := by simp [keys, size]

theorem mem_keys_iff : k ∈ t.keys ↔ t.contains k = true := by
  rw [contains_iff, keys, List.mem_map]
  constructor
  · rintro ⟨⟨k, v⟩, hmem, rfl⟩
    exact ⟨v, find?_eq_some_iff.2 hmem⟩
  · rintro ⟨v, hv⟩
    exact ⟨(k, v), find?_eq_some_iff.1 hv, rfl⟩

theorem contains_of_find? (h : t.find? k = some v) : t.contains k = true := contains_iff.2 ⟨v, h⟩

theorem find?_eq_none_iff : t.find? k = none ↔ t.contains k = false := by
  rw [contains, Option.isSome_eq_false_iff, Option.isNone_iff_eq_none]

/-- A table without entries is one that holds no key. -/
theorem size_eq_zero_iff : t.size = 0 ↔ ∀ k, t.contains k = false := by
  rw [← length_keys, List.length_eq_zero_iff, List.eq_nil_iff_forall_not_mem]
  simp only [mem_keys_iff, Bool.not_eq_true]

/-- The keys stand in ascending order. -/
theorem ascending_keys (t : Table κ α) : t.keys.Pairwise fun k k' => rank k < rank k' :=
  List.pairwise_map.2 t.ascending

theorem nodup_keys (t : Table κ α) : t.keys.Nodup := by
  refine t.ascending_keys.imp ?_
  rintro k k' hlt rfl
  exact Nat.lt_irrefl _ hlt

/-- Two lists in the order of their ranks have the same members only if they are equal. -/
theorem eq_of_ascending {γ : Type} {r : γ → Nat} {l l' : List γ}
    (hl : l.Pairwise fun a b => r a < r b) (hl' : l'.Pairwise fun a b => r a < r b)
    (h : ∀ a, a ∈ l ↔ a ∈ l') : l = l' := by
  have : Std.Irrefl fun a b : γ => r a < r b := ⟨fun a => Nat.lt_irrefl _⟩
  have : Std.Antisymm fun a b : γ => r a < r b :=
    ⟨fun a b hab hba => (Nat.lt_asymm hab hba).elim⟩
  exact hl.eq_of_mem_iff hl' h

/-- Which keys a table holds determines the list of them. -/
theorem keys_eq_of_contains (h : ∀ k, t.contains k = u.contains k) : t.keys = u.keys :=
  eq_of_ascending t.ascending_keys u.ascending_keys fun k => by rw [mem_keys_iff, mem_keys_iff, h]

/-- What is found in a table determines it. -/
theorem ext_find? {t t' : Table κ α} (h : ∀ k, t.find? k = t'.find? k) : t = t' := by
  refine Table.ext (eq_of_ascending t.ascending t'.ascending ?_)
  rintro ⟨k, v⟩
  rw [← find?_eq_some_iff, ← find?_eq_some_iff, h]

/-! ## Updates -/

section Updates

variable [DecidableEq κ] {f : α → α}

@[simp] theorem contains_insert :
    (t.insert k v).contains k' = (decide (k' = k) || t.contains k') := by
  rw [contains, contains, find?_insert]
  by_cases h : k' = k <;> simp [h]

/-- Of two values for one key the later one counts. -/
@[simp] theorem insert_insert {w : α} : (t.insert k v).insert k w = t.insert k w := by
  refine ext_find? fun k' => ?_
  simp only [find?_insert]
  split <;> rfl

@[simp] theorem contains_adjust : (t.adjust k f).contains k' = t.contains k' := by
  rw [contains, contains, find?_adjust]
  by_cases h : k' = k <;> simp [h]

@[simp] theorem contains_erase : (t.erase k).contains k' = (!decide (k' = k) && t.contains k') := by
  rw [contains, contains, find?_erase]
  by_cases h : k' = k <;> simp [h]

/-- A value that is replaced leaves the keys alone. -/
theorem keys_insert (h : t.contains k = true) (v : α) : (t.insert k v).keys = t.keys := by
  refine keys_eq_of_contains fun k' => ?_
  rw [contains_insert]
  by_cases hk : k' = k
  · subst hk
    simp [h]
  · simp [hk]

@[simp] theorem keys_adjust : (t.adjust k f).keys = t.keys :=
  keys_eq_of_contains fun _ => contains_adjust

end Updates

/-! ## Sums over the values -/

/-- A sum over the values of a table is that over the table without a key, and the value at the
key. -/
theorem sum_values_erase (t : Table κ α) (k : κ) (f : α → Nat) :
    (t.values.map f).sum = ((t.erase k).values.map f).sum + ((t.find? k).map f).getD 0 := by
  obtain ⟨l, hl⟩ := t
  show ((l.map Prod.snd).map f).sum =
    (((l.filter fun e => rank e.1 != rank k).map Prod.snd).map f).sum + ((seek k l).map f).getD 0
  induction l with
  | nil => rfl
  | cons e l ih =>
    obtain ⟨he, hl⟩ := List.pairwise_cons.1 hl
    by_cases hk : rank e.1 = rank k
    · -- The keys after this one are larger, so the rest of the table is kept.
      have hrest : (l.filter fun e => rank e.1 != rank k) = l := by
        refine List.filter_eq_self.2 fun x hx => ?_
        have hlt := he x hx
        simp only [bne_iff_ne, ne_eq]
        omega
      simp [seek, hk, hrest, Nat.add_comm]
    · have ih := ih hl
      simp only [List.map_map] at ih
      simp [seek, hk, ih, Nat.add_assoc]

/-- The sums over the values of two tables that agree but for one key differ by the values at that
key. -/
theorem sum_values_of_ne [DecidableEq κ] {t u : Table κ α} (f : α → Nat)
    (h : ∀ k' ≠ k, u.find? k' = t.find? k') :
    (u.values.map f).sum + ((t.find? k).map f).getD 0 =
      (t.values.map f).sum + ((u.find? k).map f).getD 0 := by
  have hrest : u.erase k = t.erase k := by
    refine ext_find? fun k' => ?_
    rw [find?_erase, find?_erase]
    split
    · rfl
    · rename_i hne
      exact h k' hne
  have ht := sum_values_erase t k f
  have hu := sum_values_erase u k f
  rw [hrest] at hu
  omega

theorem length_place_le (k : κ) (v : α) (l : List (κ × α)) :
    (place k v l).length ≤ l.length + 1 := by
  induction l with
  | nil => simp [place]
  | cons e l ih =>
    unfold place
    split
    · simp
    · split
      · simpa using ih
      · simp

/-- A new key makes room for itself. -/
theorem length_place {k : κ} {v : α} {l : List (κ × α)} (h : seek k l = none) :
    (place k v l).length = l.length + 1 := by
  induction l with
  | nil => rfl
  | cons e l ih =>
    rw [seek] at h
    split at h
    · cases h
    · rename_i hne
      unfold place
      split
      · rfl
      · split
        · rw [List.length_cons, ih h, List.length_cons]
        · omega

theorem size_insert (h : t.find? k = none) (v : α) : (t.insert k v).size = t.size + 1 :=
  length_place h

theorem size_insert_le (t : Table κ α) (k : κ) (v : α) : (t.insert k v).size ≤ t.size + 1 :=
  length_place_le k v t.toList

theorem size_erase_le (t : Table κ α) (k : κ) : (t.erase k).size ≤ t.size :=
  List.length_filter_le _ _

end TrickleNet.Table

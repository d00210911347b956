/-!
# Ordered tables

`Table κ α` maps keys to values and keeps its entries in ascending order of their keys.  A key type
says through `Ranked` which natural number each key ranks at; distinct keys have distinct ranks, so
the order is total and two entries never share a key.

The view of a table is `Table.find?`: each operation has one lemma that says what a later look-up
finds.  The order is the other observation, through `Table.toList`.
-/

namespace TrickleNet

/-- Key types whose members are ordered by an injective rank. -/
class Ranked (κ : Type) where
  /-- The place of a key in the order. -/
  rank : κ → Nat
  /-- Distinct keys have distinct ranks. -/
  rank_inj : ∀ {k k' : κ}, rank k = rank k' → k = k'

export Ranked (rank)

/-- Bytes rank as numbers. -/
instance : Ranked UInt8 where
  rank b := b.toNat
  rank_inj h := UInt8.toNat_inj.1 h

theorem rank_eq_iff {κ : Type} [Ranked κ] {k k' : κ} : rank k = rank k' ↔ k = k' :=
  ⟨Ranked.rank_inj, congrArg _⟩

/-- A finite map whose entries stand in ascending order of their keys. -/
structure Table (κ α : Type) [Ranked κ] where
  /-- The entries, in order. -/
  toList : List (κ × α)
  /-- Each key ranks below the keys after it. -/
  ascending : toList.Pairwise fun e e' => rank e.1 < rank e'.1

namespace Table

variable {κ α : Type} [Ranked κ]

@[ext] theorem ext {t u : Table κ α} (h : t.toList = u.toList) : t = u := by
  cases t
  cases u
  simp_all

/-- The table without entries. -/
def empty : Table κ α := ⟨[], .nil⟩

instance : EmptyCollection (Table κ α) := ⟨empty⟩

instance : Inhabited (Table κ α) := ⟨empty⟩

/-- The value that a list of entries holds at a key. -/
def seek (k : κ) : List (κ × α) → Option α
  | [] => none
  | e :: es => if rank e.1 = rank k then some e.2 else seek k es

/-- The value at a key. -/
def find? (t : Table κ α) (k : κ) : Option α := seek k t.toList

/-- Whether the table holds the key. -/
def contains (t : Table κ α) (k : κ) : Bool := (t.find? k).isSome

/-- The number of entries. -/
def size (t : Table κ α) : Nat := t.toList.length

/-- The keys, in ascending order. -/
def keys (t : Table κ α) : List κ := t.toList.map Prod.fst

/-- The values, in the order of their keys. -/
def values (t : Table κ α) : List α := t.toList.map Prod.snd

/-- Puts an entry where its key belongs, in place of an entry with the same key. -/
def place (k : κ) (v : α) : List (κ × α) → List (κ × α)
  | [] => [(k, v)]
  | e :: es =>
    if rank k < rank e.1 then (k, v) :: e :: es
    else if rank e.1 < rank k then e :: place k v es
    else (k, v) :: es

theorem mem_place {k : κ} {v : α} {e : κ × α} {l : List (κ × α)} (h : e ∈ place k v l) :
    e = (k, v) ∨ e ∈ l := by
  induction l with
  | nil => simpa [place] using h
  | cons a l ih =>
    unfold place at h
    split at h
    · simpa using h
    · split at h
      · rcases List.mem_cons.1 h with rfl | h
        · simp
        · rcases ih h with h | h <;> simp [h]
      · rcases List.mem_cons.1 h with h | h <;> simp [h]

theorem pairwise_place {k : κ} {v : α} {l : List (κ × α)}
    (h : l.Pairwise fun e e' => rank e.1 < rank e'.1) :
    (place k v l).Pairwise fun e e' => rank e.1 < rank e'.1 := by
  induction l with
  | nil => simp [place]
  | cons a l ih =>
    obtain ⟨ha, hl⟩ := List.pairwise_cons.1 h
    unfold place
    split
    · rename_i hk
      refine List.pairwise_cons.2 ⟨fun e he => ?_, h⟩
      rcases List.mem_cons.1 he with rfl | he
      · exact hk
      · exact Nat.lt_trans hk (ha e he)
    · split
      · rename_i hk
        refine List.pairwise_cons.2 ⟨fun e he => ?_, ih hl⟩
        rcases mem_place he with rfl | he
        · exact hk
        · exact ha e he
      · rename_i h₁ h₂
        have hka : rank k = rank a.1 := by omega
        exact List.pairwise_cons.2 ⟨fun e he => by simpa [hka] using ha e he, hl⟩

/-- Binds a key to a value, replacing an earlier binding. -/
def insert (t : Table κ α) (k : κ) (v : α) : Table κ α :=
  ⟨place k v t.toList, pairwise_place t.ascending⟩

/-- Keeps the entries that satisfy `p`. -/
def filter (t : Table κ α) (p : κ → α → Bool) : Table κ α :=
  ⟨t.toList.filter fun e => p e.1 e.2, t.ascending.filter _⟩

/-- Forgets a key. -/
def erase (t : Table κ α) (k : κ) : Table κ α := t.filter fun k' _ => rank k' != rank k

/-- Applies `f` to every value. -/
def map (t : Table κ α) (f : κ → α → α) : Table κ α where
  toList := t.toList.map fun e => (e.1, f e.1 e.2)
  ascending := List.pairwise_map.2 t.ascending

/-- Applies `f` to the value at a key, if the table holds the key. -/
def adjust (t : Table κ α) (k : κ) (f : α → α) : Table κ α :=
  t.map fun k' v => if rank k' = rank k then f v else v

/-- The table of a list of entries; of two entries with one key the later one counts. -/
def ofList (l : List (κ × α)) : Table κ α := l.foldl (fun t e => t.insert e.1 e.2) empty

/-! ### What a look-up finds -/

variable {t : Table κ α} {k k' : κ} {v : α}

@[simp] theorem find?_empty : (∅ : Table κ α).find? k = none := rfl

theorem seek_place [DecidableEq κ] (k : κ) (v : α) (k' : κ) (l : List (κ × α)) :
    seek k' (place k v l) = if k' = k then some v else seek k' l := by
  have hkk : rank k = rank k' ↔ k' = k := by rw [rank_eq_iff, eq_comm]
  induction l with
  | nil => simp [place, seek, hkk]
  | cons e l ih =>
    unfold place
    split
    · simp [seek, hkk]
    · split
      · by_cases he : rank e.1 = rank k'
        · have hne : ¬k' = k := fun h => by have := hkk.2 h; omega
          simp [seek, he, hne]
        · simp [seek, he, ih]
      · have heq : rank e.1 = rank k := by omega
        by_cases h : k' = k <;> simp [seek, heq, hkk, h]

@[simp] theorem find?_insert [DecidableEq κ] :
    (t.insert k v).find? k' = if k' = k then some v else t.find? k' :=
  seek_place k v k' t.toList

theorem seek_eq_none {k : κ} {l : List (κ × α)} (h : ∀ e ∈ l, rank e.1 ≠ rank k) :
    seek k l = none := by
  induction l with
  | nil => rfl
  | cons e l ih =>
    simp only [seek, h e List.mem_cons_self, if_false]
    exact ih fun x hx => h x (List.mem_cons_of_mem _ hx)

theorem seek_filter {p : κ → α → Bool} {l : List (κ × α)}
    (hl : l.Pairwise fun e e' => rank e.1 < rank e'.1) :
    seek k (l.filter fun e => p e.1 e.2) = (seek k l).filter (p k) := by
  induction l with
  | nil => rfl
  | cons e l ih =>
    obtain ⟨he, hl⟩ := List.pairwise_cons.1 hl
    rw [List.filter_cons]
    by_cases hk : rank e.1 = rank k
    · obtain rfl : e.1 = k := rank_eq_iff.1 hk
      have hnone : seek e.1 (l.filter fun e => p e.1 e.2) = none :=
        seek_eq_none fun x hx => by
          have := he x (List.mem_filter.1 hx).1
          omega
      split <;> rename_i hp
      · simp [seek, Option.filter, hp]
      · simp [seek, Option.filter, hp, hnone]
    · have ih := ih hl
      split <;> simp only [seek, hk, if_false] <;> exact ih

@[simp] theorem find?_filter {p : κ → α → Bool} :
    (t.filter p).find? k = (t.find? k).filter (p k) :=
  seek_filter t.ascending

@[simp] theorem find?_erase [DecidableEq κ] :
    (t.erase k).find? k' = if k' = k then none else t.find? k' := by
  rw [erase, find?_filter]
  by_cases h : k' = k
  · cases t.find? k' <;> simp [h, Option.filter]
  · have hne : ¬rank k' = rank k := fun hr => h (rank_eq_iff.1 hr)
    cases t.find? k' <;> simp [h, Option.filter, hne]

@[simp] theorem find?_map {f : κ → α → α} : (t.map f).find? k = (t.find? k).map (f k) := by
  obtain ⟨l, hl⟩ := t
  show seek k (l.map fun e => (e.1, f e.1 e.2)) = (seek k l).map (f k)
  clear hl
  induction l with
  | nil => rfl
  | cons e l ih =>
    by_cases hk : rank e.1 = rank k
    · obtain rfl : e.1 = k := rank_eq_iff.1 hk
      simp [seek]
    · simp [seek, hk, ih]

@[simp] theorem find?_adjust [DecidableEq κ] {f : α → α} :
    (t.adjust k f).find? k' = if k' = k then (t.find? k').map f else t.find? k' := by
  rw [adjust, find?_map]
  by_cases h : k' = k
  · simp [h]
  · have hne : ¬rank k' = rank k := fun hr => h (rank_eq_iff.1 hr)
    cases t.find? k' <;> simp [h, hne]

theorem contains_iff : t.contains k = true ↔ ∃ v, t.find? k = some v := Option.isSome_iff_exists

theorem find?_eq_some_iff : t.find? k = some v ↔ (k, v) ∈ t.toList := by
  obtain ⟨l, hl⟩ := t
  show seek k l = some v ↔ (k, v) ∈ l
  induction l with
  | nil => simp [seek]
  | cons e l ih =>
    obtain ⟨he, hl⟩ := List.pairwise_cons.1 hl
    by_cases hk : rank e.1 = rank k
    · obtain rfl : e.1 = k := rank_eq_iff.1 hk
      have hnot : (e.1, v) ∉ l := fun hm => absurd (he _ hm) (Nat.lt_irrefl _)
      simp [seek, hnot, Prod.ext_iff, eq_comm]
    · have hne : (k, v) ≠ e := fun h => hk (by rw [← h])
      simp [seek, hk, ih hl, hne]

end Table

end TrickleNet

import Mathlib
import TrickleNet.Proofs.Keys
import TrickleNet.Radio.Map
/-!
# The neighbours of a node

A node `b` is among the neighbours of `a` exactly when they have a link that is up
(`RadioMap.mem_neighbors_iff`), and the list holds every neighbour once, in ascending order
(`RadioMap.ascending_neighbors`).  Both come of how edges are kept: an edge at `a` leads to `b` only
if it is the edge between them, and of two edges at `a` the lower one leads to the lower neighbour.

In a chain the links are those between nodes that stand next to each other in the list
(`RadioMap.link?_chain`).
-/

namespace TrickleNet

namespace Edge

variable {e e' : Edge} {a b b' c d : Address}

theorem rank_of (a b : Address) :
    rank (Edge.of a b) = min (rank a) (rank b) * Address.count + max (rank a) (rank b) := by
  unfold Edge.of
  split
  · rename_i h
    have hle : rank a ≤ rank b := h
    rw [min_eq_left hle, max_eq_right hle]
    rfl
  · rename_i h
    have hle : rank b ≤ rank a := Nat.le_of_lt (Nat.lt_of_not_le h)
    rw [min_eq_right hle, max_eq_left hle]
    rfl

/-- Two pairs of nodes have the same edge only if they are the same, perhaps the other way
around. -/
theorem of_eq_of_iff : Edge.of a b = Edge.of c d ↔ a = c ∧ b = d ∨ a = d ∧ b = c := by
  constructor
  · intro h
    unfold Edge.of at h
    split at h <;> split at h <;> obtain ⟨hlow, hhigh⟩ := Edge.mk.inj h
    · exact .inl ⟨hlow, hhigh⟩
    · exact .inr ⟨hlow, hhigh⟩
    · exact .inr ⟨hhigh, hlow⟩
    · exact .inl ⟨hhigh, hlow⟩
  · rintro (⟨rfl, rfl⟩ | ⟨rfl, rfl⟩)
    · rfl
    · exact of_comm a b

/-- An edge at `a` leads to `b` if it is the edge between them. -/
theorem other?_eq_some_iff : e.other? a = some b ↔ e = Edge.of a b := by
  obtain ⟨low, high, hle⟩ := e
  constructor
  · intro h
    unfold other? at h
    split at h
    · rename_i hlow
      obtain rfl : low = a := hlow
      obtain rfl := Option.some.inj h
      exact (dif_pos hle).symm
    split at h
    · rename_i hhigh
      obtain rfl : high = a := hhigh
      obtain rfl := Option.some.inj h
      rw [of_comm]
      exact (dif_pos hle).symm
    · cases h
  · intro h
    rw [h]
    unfold Edge.of other?
    split
    · exact if_pos rfl
    · rename_i hle
      have hne : ¬b = a := fun heq => hle (heq ▸ Nat.le_refl _)
      exact (if_neg hne).trans (if_pos rfl)

/-- Of two edges at `a` the lower one leads to the lower end. -/
theorem lt_of_rank_lt (h : rank (Edge.of a b) < rank (Edge.of a b')) : b < b' := by
  rw [rank_of, rank_of] at h
  rw [Address.lt_iff]
  simp only [Address.count] at h
  omega

end Edge

namespace RadioMap

variable {m : RadioMap} {a b : Address}

theorem connected_iff : m.connected a b = true ↔ ∃ l, m.link? a b = some l ∧ l.active = true :=
  Option.any_eq_true _ _

theorem mem_neighbors_iff : b ∈ m.neighbors a ↔ m.connected a b = true := by
  rw [neighbors, List.mem_filterMap, connected_iff]
  constructor
  · rintro ⟨⟨e, l⟩, hmem, hother⟩
    obtain ⟨hactive, hother⟩ := Option.ite_none_right_eq_some.1 hother
    obtain rfl := Edge.other?_eq_some_iff.1 hother
    exact ⟨l, Table.find?_eq_some_iff.2 hmem, hactive⟩
  · rintro ⟨l, hl, hactive⟩
    refine ⟨(.of a b, l), Table.find?_eq_some_iff.1 hl, ?_⟩
    rw [if_pos hactive]
    exact Edge.other?_eq_some_iff.2 rfl

/-- Neighbours are listed in ascending order. -/
theorem ascending_neighbors (m : RadioMap) (a : Address) : (m.neighbors a).Pairwise (· < ·) := by
  refine m.links.ascending.filterMap _ fun e e' hlt b hb b' hb' => ?_
  obtain ⟨-, hb⟩ := Option.ite_none_right_eq_some.1 hb
  obtain ⟨-, hb'⟩ := Option.ite_none_right_eq_some.1 hb'
  rw [Edge.other?_eq_some_iff.1 hb, Edge.other?_eq_some_iff.1 hb'] at hlt
  exact Edge.lt_of_rank_lt hlt

theorem nodup_neighbors (m : RadioMap) (a : Address) : (m.neighbors a).Nodup := by
  refine (m.ascending_neighbors a).imp fun {b b'} hlt heq => ?_
  rw [heq, Address.lt_iff] at hlt
  exact Nat.lt_irrefl _ hlt

/-- A chain links the nodes that stand next to each other in the list. -/
theorem link?_chain {nodes : List Address} :
    ((chain nodes).link? a b).isSome = true ↔
      ∃ x y, [x, y] <:+: nodes ∧ Edge.of a b = Edge.of x y := by
  induction nodes with
  | nil =>
    constructor
    · rintro ⟨⟩
    · rintro ⟨x, y, hinfix, -⟩
      have hle := hinfix.length_le
      simp at hle
  | cons x nodes ih =>
    cases nodes with
    | nil =>
      constructor
      · rintro ⟨⟩
      · rintro ⟨x, y, hinfix, -⟩
        have hle := hinfix.length_le
        simp at hle
    | cons y nodes =>
      rw [chain, link?_addLink]
      constructor
      · intro h
        split at h
        · rename_i heq
          exact ⟨x, y, (List.prefix_append [x, y] nodes).isInfix, heq⟩
        · obtain ⟨x', y', hinfix, heq⟩ := ih.1 h
          exact ⟨x', y', List.infix_cons hinfix, heq⟩
      · rintro ⟨x', y', hinfix, heq⟩
        split
        · rfl
        · rename_i hne
          refine ih.2 ⟨x', y', ?_, heq⟩
          rcases List.infix_cons_iff.1 hinfix with hprefix | hinfix
          · obtain ⟨hx, hprefix⟩ := List.cons_prefix_cons.1 hprefix
            obtain ⟨hy, -⟩ := List.cons_prefix_cons.1 hprefix
            rw [hx, hy] at heq
            exact absurd heq hne
          · exact hinfix

end RadioMap

end TrickleNet

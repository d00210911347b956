import Mathlib
import TrickleNet.Proofs.Neighbors
/-!
# The shapes of radio maps

A layout puts standard links between nodes of a list: between any two of them (`RadioMap.full`),
between those next to each other (`RadioMap.chain`), or between the first one and each of the others
(`RadioMap.star`).  In a `RadioMap.Standard` map every link is a standard one, so two nodes are
connected as soon as they have a link (`Standard.connected_iff`).

Which links a layout has is read off node by node, along the list: to join a node to others adds the
links between it and them (`link?_joinAll`).  As long as no node is listed twice all of these are
new, so each node adds as many links as there are nodes it is joined to (`size_joinAll`).
-/

namespace TrickleNet

namespace RadioMap

variable {m : RadioMap} {a b x y : Address} {l : Link} {nodes : List Address}

/-! ## Standard maps -/

/-- Every link is a standard one. -/
def Standard (m : RadioMap) : Prop := ∀ x y l, m.link? x y = some l → l = {}

theorem standard_empty : Standard ∅ := by
  rintro x y l ⟨⟩

theorem Standard.addLink (h : m.Standard) (a b : Address) : (m.addLink a b {}).Standard := by
  intro x y l hl
  rw [link?_addLink] at hl
  split at hl
  · exact (Option.some.inj hl).symm
  · exact h x y l hl

theorem Standard.joinAll (h : m.Standard) (a : Address) (nodes : List Address) :
    (joinAll a nodes m).Standard := by
  induction nodes generalizing m with
  | nil => exact h
  | cons b nodes ih => exact ih (h.addLink a b)

theorem standard_full (nodes : List Address) : (full nodes).Standard := by
  induction nodes with
  | nil => exact standard_empty
  | cons a nodes ih => exact ih.joinAll a nodes

theorem standard_chain (nodes : List Address) : (chain nodes).Standard := by
  induction nodes with
  | nil => exact standard_empty
  | cons a nodes ih =>
    cases nodes with
    | nil => exact standard_empty
    | cons b nodes => exact ih.addLink a b

theorem standard_star (nodes : List Address) : (star nodes).Standard := by
  cases nodes with
  | nil => exact standard_empty
  | cons hub spokes => exact standard_empty.joinAll hub spokes

/-- Standard links are up. -/
theorem Standard.connected_iff (h : m.Standard) :
    m.connected x y = true ↔ (m.link? x y).isSome = true := by
  rw [RadioMap.connected_iff, Option.isSome_iff_exists]
  constructor
  · rintro ⟨l, hl, -⟩
    exact ⟨l, hl⟩
  · rintro ⟨l, hl⟩
    obtain rfl := h x y l hl
    exact ⟨_, hl, rfl⟩

/-! ## Joining a node to others -/

theorem link?_joinAll : ((joinAll a nodes m).link? x y).isSome = true ↔
    x = a ∧ y ∈ nodes ∨ y = a ∧ x ∈ nodes ∨ (m.link? x y).isSome = true := by
  induction nodes generalizing m with
  | nil => simp [joinAll]
  | cons b nodes ih =>
    have hjoin : joinAll a (b :: nodes) m = joinAll a nodes (m.addLink a b {}) := rfl
    rw [hjoin, ih, link?_addLink]
    simp only [Edge.of_eq_of_iff, List.mem_cons]
    split
    · simp only [Option.isSome_some]
      tauto
    · tauto

theorem size_addLink (h : m.link? a b = none) (l : Link) : (m.addLink a b l).size = m.size + 1 :=
  Table.size_insert h l

/-- A node that has no link to the others yet gains one for each of them. -/
theorem size_joinAll (hnodes : nodes.Nodup) (hnew : ∀ b ∈ nodes, m.link? a b = none) :
    (joinAll a nodes m).size = m.size + nodes.length := by
  induction nodes generalizing m with
  | nil => rfl
  | cons b nodes ih =>
    obtain ⟨hb, hnodes⟩ := List.nodup_cons.1 hnodes
    have hrest : ∀ c ∈ nodes, (m.addLink a b {}).link? a c = none := by
      intro c hc
      have hne : Edge.of a c ≠ Edge.of a b := by
        rw [ne_eq, Edge.of_eq_of_iff]
        rintro (⟨-, rfl⟩ | ⟨rfl, rfl⟩) <;> exact hb hc
      rw [link?_addLink, if_neg hne]
      exact hnew c (List.mem_cons_of_mem b hc)
    calc (joinAll a (b :: nodes) m).size
      _ = (m.addLink a b {}).size + nodes.length := ih hnodes hrest
      _ = m.size + 1 + nodes.length := by rw [size_addLink (hnew b List.mem_cons_self)]
      _ = m.size + (b :: nodes).length := by rw [List.length_cons]; omega

/-! ## The layouts -/

theorem link?_full (hnodes : nodes.Nodup) :
    ((full nodes).link? x y).isSome = true ↔ x ∈ nodes ∧ y ∈ nodes ∧ x ≠ y := by
  induction nodes with
  | nil =>
    constructor
    · rintro ⟨⟩
    · rintro ⟨⟨⟩, -⟩
  | cons a nodes ih =>
    obtain ⟨ha, hnodes⟩ := List.nodup_cons.1 hnodes
    rw [full, link?_joinAll, ih hnodes]
    simp only [List.mem_cons]
    constructor
    · rintro (⟨rfl, hy⟩ | ⟨rfl, hx⟩ | ⟨hx, hy, hne⟩)
      · exact ⟨.inl rfl, .inr hy, fun h => ha (h ▸ hy)⟩
      · exact ⟨.inr hx, .inl rfl, fun h => ha (h ▸ hx)⟩
      · exact ⟨.inr hx, .inr hy, hne⟩
    · rintro ⟨rfl | hx, rfl | hy, hne⟩
      · exact absurd rfl hne
      · exact .inl ⟨rfl, hy⟩
      · exact .inr (.inl ⟨rfl, hx⟩)
      · exact .inr (.inr ⟨hx, hy, hne⟩)

/-- Each node is joined to those after it in the list. -/
theorem size_full (hnodes : nodes.Nodup) :
    (full nodes).size = nodes.length * (nodes.length - 1) / 2 := by
  rw [← Nat.choose_two_right]
  induction nodes with
  | nil => rfl
  | cons a nodes ih =>
    obtain ⟨ha, hnodes⟩ := List.nodup_cons.1 hnodes
    have hnew : ∀ b ∈ nodes, (full nodes).link? a b = none := by
      intro b hb
      rw [← Option.not_isSome_iff_eq_none, link?_full hnodes]
      exact fun h => ha h.1
    rw [full, size_joinAll hnodes hnew, ih hnodes, List.length_cons, Nat.choose_succ_succ,
      Nat.choose_one_right, Nat.add_comm]

/-- Each node but the last is joined to the next one. -/
theorem size_chain (hnodes : nodes.Nodup) : (chain nodes).size = nodes.length - 1 := by
  induction nodes with
  | nil => rfl
  | cons a nodes ih =>
    obtain ⟨ha, hnodes⟩ := List.nodup_cons.1 hnodes
    cases nodes with
    | nil => rfl
    | cons b nodes =>
      have hnew : (chain (b :: nodes)).link? a b = none := by
        rw [← Option.not_isSome_iff_eq_none, link?_chain]
        rintro ⟨x, y, hnext, heq⟩
        have hx : x ∈ b :: nodes := hnext.subset List.mem_cons_self
        have hy : y ∈ b :: nodes := hnext.subset (List.mem_cons_of_mem x List.mem_cons_self)
        rcases Edge.of_eq_of_iff.1 heq with ⟨rfl, -⟩ | ⟨rfl, -⟩
        · exact ha hx
        · exact ha hy
      rw [chain, size_addLink hnew, ih hnodes]
      rfl

theorem link?_star : ((star nodes).link? x y).isSome = true ↔
    nodes.head? = some x ∧ y ∈ nodes.tail ∨ nodes.head? = some y ∧ x ∈ nodes.tail := by
  cases nodes with
  | nil =>
    constructor
    · rintro ⟨⟩
    · rintro (⟨⟨⟩, -⟩ | ⟨⟨⟩, -⟩)
  | cons hub spokes =>
    have hempty : ¬((∅ : RadioMap).link? x y).isSome = true := Bool.false_ne_true
    rw [star, link?_joinAll, or_iff_left hempty, List.head?_cons, List.tail_cons, Option.some.injEq,
      Option.some.injEq, eq_comm (a := hub), eq_comm (a := hub)]

theorem size_star (hnodes : nodes.Nodup) : (star nodes).size = nodes.length - 1 := by
  cases nodes with
  | nil => rfl
  | cons hub spokes =>
    obtain ⟨-, hspokes⟩ := List.nodup_cons.1 hnodes
    rw [star, size_joinAll hspokes fun _ _ => rfl]
    exact Nat.zero_add _

/-- A layout of different nodes connects these pairs of them and no others: any two of the list;
those that stand next to each other; the first one and a later one.  The number of links is that of
these pairs. -/
theorem layouts_are_exact (hnodes : nodes.Nodup) (x y : Address) :
    ((full nodes).connected x y = true ↔ x ∈ nodes ∧ y ∈ nodes ∧ x ≠ y) ∧
    (full nodes).size = nodes.length * (nodes.length - 1) / 2 ∧
    ((chain nodes).connected x y = true ↔ [x, y] <:+: nodes ∨ [y, x] <:+: nodes) ∧
    (chain nodes).size = nodes.length - 1 ∧
    ((star nodes).connected x y = true ↔
      nodes.head? = some x ∧ y ∈ nodes.tail ∨ nodes.head? = some y ∧ x ∈ nodes.tail) ∧
    (star nodes).size = nodes.length - 1 := by
  refine ⟨?_, size_full hnodes, ?_, size_chain hnodes, ?_, size_star hnodes⟩
  · rw [(standard_full nodes).connected_iff, link?_full hnodes]
  · rw [(standard_chain nodes).connected_iff, link?_chain]
    constructor
    · rintro ⟨x', y', hnext, heq⟩
      rcases Edge.of_eq_of_iff.1 heq with ⟨rfl, rfl⟩ | ⟨rfl, rfl⟩
      · exact .inl hnext
      · exact .inr hnext
    · rintro (hnext | hnext)
      · exact ⟨x, y, hnext, rfl⟩
      · exact ⟨y, x, hnext, Edge.of_comm x y⟩
  · rw [(standard_star nodes).connected_iff, link?_star]

/-- Three nodes in an order other than that of their addresses.  In the chain the last one is linked
to the one before it and not to the first one; in the star it is the other way around. -/
theorem layouts_are_exact_for_three :
    [Address.linkLocal 2, .linkLocal 7, .linkLocal 1].Nodup ∧
    (full [.linkLocal 2, .linkLocal 7, .linkLocal 1]).size = 3 ∧
    (chain [.linkLocal 2, .linkLocal 7, .linkLocal 1]).connected (.linkLocal 1) (.linkLocal 7) =
      true ∧
    (chain [.linkLocal 2, .linkLocal 7, .linkLocal 1]).connected (.linkLocal 1) (.linkLocal 2) =
      false ∧
    (star [.linkLocal 2, .linkLocal 7, .linkLocal 1]).connected (.linkLocal 1) (.linkLocal 7) =
      false ∧
    (star [.linkLocal 2, .linkLocal 7, .linkLocal 1]).connected (.linkLocal 1) (.linkLocal 2) =
      true := by
  have hnodes : [Address.linkLocal 2, .linkLocal 7, .linkLocal 1].Nodup := by decide
  obtain ⟨-, hfull, hadjacent, -, hspoke, -⟩ :=
    layouts_are_exact hnodes (.linkLocal 1) (.linkLocal 7)
  obtain ⟨-, -, hends, -, hhub, -⟩ := layouts_are_exact hnodes (.linkLocal 1) (.linkLocal 2)
  refine ⟨hnodes, hfull, hadjacent.2 (.inr (List.suffix_cons _ _).isInfix), ?_, ?_,
    hhub.2 (.inr ?_)⟩
  · rw [← Bool.not_eq_true, hends]
    decide
  · rw [← Bool.not_eq_true, hspoke]
    decide
  · decide

end RadioMap

end TrickleNet

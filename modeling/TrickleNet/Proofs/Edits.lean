import Mathlib
import TrickleNet.Proofs.Neighbors
/-!
# Editing a radio map

A radio map comes about through `RadioMap.Edit`s: links are put in, and links that are there already
are changed.  An edge stands for the unordered pair of its ends (`Edge.ends`), and only an edit that
puts a link in adds an edge, that of the pair it names (`RadioMap.contains_edit`).  So the edges of
a map are the pairs that were ever put in, whatever was changed between and in whichever order the
ends were given (`RadioMap.contains_foldl_edit`), and there is one link for each of these pairs
(`RadioMap.size_build`).

`RadioMap.links_have_no_direction` puts this together with what is known of neighbours.
-/

namespace TrickleNet

namespace Edge

variable {a b c d : Address}

/-- The unordered pair that the edge stands for. -/
def ends (e : Edge) : Sym2 Address := s(e.low, e.high)

@[simp] theorem ends_of (a b : Address) : (Edge.of a b).ends = s(a, b) := by
  unfold Edge.of
  split
  · rfl
  · exact Sym2.eq_swap

/-- Every edge is the edge between its ends. -/
theorem of_low_high (e : Edge) : Edge.of e.low e.high = e := dif_pos e.low_le_high

theorem of_eq_of_iff_ends : Edge.of a b = Edge.of c d ↔ s(a, b) = s(c, d) := by
  rw [of_eq_of_iff, Sym2.eq_iff]

theorem ends_injective : Function.Injective Edge.ends := by
  intro e e' h
  rw [← e.of_low_high, ← e'.of_low_high, of_eq_of_iff_ends]
  exact h

end Edge

namespace RadioMap

/-! ## Edits -/

/-- A change to a radio map. -/
inductive Edit where
  /-- A link is put between two nodes, in place of an earlier one. -/
  | add (a b : Address) (l : Link)
  /-- The link between two nodes is changed, if there is one. -/
  | adjust (a b : Address) (f : Link → Link)
  /-- Every link is changed.  What becomes of a link may hang on the links that were changed before
  it, so each edge has a change of its own. -/
  | adjustEach (f : Edge → Link → Link)

/-- The pair of nodes between which the edit puts a link. -/
def Edit.added? : Edit → Option (Sym2 Address)
  | .add a b _ => some s(a, b)
  | .adjust .. | .adjustEach _ => none

/-- Makes a change to a radio map. -/
def edit (m : RadioMap) : Edit → RadioMap
  | .add a b l => m.addLink a b l
  | .adjust a b f => m.adjustLink a b f
  | .adjustEach f => { m with links := m.links.map f }

/-- The same change may be made to every link. -/
theorem edit_adjustEach (m : RadioMap) (f : Link → Link) :
    m.edit (.adjustEach fun _ => f) = m.mapLinks f := rfl

/-- The map that some edits make of one without links. -/
def build (xs : List Edit) : RadioMap := xs.foldl edit ∅

/-! ## The links of a map that was built -/

theorem link?_addLink_ends (m : RadioMap) (a b : Address) (l : Link) (c d : Address) :
    (m.addLink a b l).link? c d = if s(c, d) = s(a, b) then some l else m.link? c d := by
  rw [link?_addLink]
  simp only [Edge.of_eq_of_iff_ends]

/-- An edit adds the edge between the nodes it puts a link between, and no other. -/
theorem contains_edit (m : RadioMap) (x : Edit) (e : Edge) :
    (m.edit x).links.contains e = true ↔ x.added? = some e.ends ∨ m.links.contains e = true := by
  cases x with
  | add a b l =>
    have hends : e = Edge.of a b ↔ s(a, b) = e.ends := by
      rw [← Edge.ends_injective.eq_iff, Edge.ends_of, eq_comm]
    simp [edit, addLink, Edit.added?, hends]
  | adjust a b f => simp [edit, adjustLink, Edit.added?]
  | adjustEach f => simp [edit, Edit.added?, Table.contains]

theorem contains_foldl_edit (xs : List Edit) (m : RadioMap) (e : Edge) :
    (xs.foldl edit m).links.contains e = true ↔
      e.ends ∈ xs.filterMap Edit.added? ∨ m.links.contains e = true := by
  induction xs generalizing m with
  | nil => simp
  | cons x xs ih =>
    rw [List.foldl_cons, ih, contains_edit, List.filterMap_cons]
    cases x.added? with
    | none => simp
    | some z =>
      simp only [Option.some.injEq, List.mem_cons]
      tauto

/-- The number of links is that of the unordered pairs that were ever put in, each counted once. -/
theorem size_build (xs : List Edit) :
    (build xs).size = (xs.filterMap Edit.added?).toFinset.card := by
  have hkeys : ((build xs).links.keys.map Edge.ends).toFinset =
      (xs.filterMap Edit.added?).toFinset := by
    ext z
    obtain ⟨a, b⟩ := z
    have hmem : s(a, b) ∈ (build xs).links.keys.map Edge.ends ↔
        (build xs).links.contains (.of a b) = true := by
      rw [← Edge.ends_of, List.mem_map_of_injective Edge.ends_injective, Table.mem_keys_iff]
    have hempty : ¬(∅ : RadioMap).links.contains (.of a b) = true := Bool.false_ne_true
    rw [List.mem_toFinset, List.mem_toFinset, hmem, build, contains_foldl_edit, Edge.ends_of]
    exact or_iff_left hempty
  rw [← hkeys, List.toFinset_card_of_nodup ((Table.nodup_keys _).map Edge.ends_injective),
    List.length_map, Table.length_keys]
  rfl

/-- Links have no direction.  In a map that was built by any edits, two nodes see the same link
between them; each lists the other as a neighbour exactly if that link is there and up, and it lists
its neighbours in strictly ascending order, so none of them twice.  A link that is put in is found
whichever end comes first, and every other pair of nodes keeps what it had.  There are as many links
as unordered pairs of nodes were ever put in. -/
theorem links_have_no_direction (xs : List Edit) (a b : Address) :
    (build xs).link? a b = (build xs).link? b a ∧
    (b ∈ (build xs).neighbors a ↔ (build xs).connected a b = true) ∧
    ((build xs).connected a b = true ↔ a ∈ (build xs).neighbors b) ∧
    ((build xs).neighbors a).Pairwise (· < ·) ∧
    (∀ l c d, ((build xs).addLink a b l).link? c d =
      if s(c, d) = s(a, b) then some l else (build xs).link? c d) ∧
    (build xs).size = (xs.filterMap Edit.added?).toFinset.card := by
  have hcomm : (build xs).connected a b = (build xs).connected b a := by
    rw [connected, connected, link?_comm]
  refine ⟨link?_comm, mem_neighbors_iff, ?_, ascending_neighbors _ a, link?_addLink_ends _ a b,
    size_build xs⟩
  rw [hcomm, mem_neighbors_iff]

end RadioMap

end TrickleNet

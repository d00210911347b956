import TrickleNet.Address
import TrickleNet.Radio.Link
import TrickleNet.Table
/-!
# Radio maps

A `RadioMap` says which nodes hear each other.  Links have no direction: a link is stored at the
`Edge` of its two ends, an unordered pair kept as its lower and its higher end.

Edges are ordered by their lower end and then by their higher end.  Of the edges at a node, those
to lower neighbours therefore come first and the others after them, so `RadioMap.neighbors` lists
the neighbours in ascending order without sorting.
-/

namespace TrickleNet

/-- An unordered pair of addresses, which may be equal. -/
structure Edge where
  /-- The lower end. -/
  low : Address
  /-- The higher end. -/
  high : Address
  /-- The ends are in order. -/
  low_le_high : low ≤ high
deriving DecidableEq

namespace Edge

/-- The edge between two addresses. -/
def of (a b : Address) : Edge :=
  if h : a ≤ b then ⟨a, b, h⟩ else ⟨b, a, Nat.le_of_lt (Nat.lt_of_not_le h)⟩

/-- Edges are ordered by their lower end, then by their higher end. -/
instance : Ranked Edge where
  rank e := rank e.low * Address.count + rank e.high
  rank_inj {e e'} h := by
    have := Address.rank_lt e.high
    have := Address.rank_lt e'.high
    obtain ⟨a, b, _⟩ := e
    obtain ⟨a', b', _⟩ := e'
    obtain rfl : a = a' := rank_eq_iff.1 (by simp only [Address.count] at *; omega)
    obtain rfl : b = b' := rank_eq_iff.1 (by simp only [Address.count] at *; omega)
    rfl

/-- The other end of an edge at `a`, if `a` is one of its ends. -/
def other? (e : Edge) (a : Address) : Option Address :=
  if e.low = a then some e.high else if e.high = a then some e.low else none

theorem of_comm (a b : Address) : of a b = of b a := by
  unfold of
  split <;> split
  · rename_i h h'
    obtain rfl : a = b := rank_eq_iff.1 (Nat.le_antisymm h h')
    rfl
  · rfl
  · rfl
  · rename_i h h'
    exact absurd (Nat.le_total (rank a) (rank b)) (not_or.2 ⟨h, h'⟩)

end Edge

/-- The links between nodes. -/
structure RadioMap where
  /-- The link of each edge. -/
  links : Table Edge Link := ∅

namespace RadioMap

instance : Inhabited RadioMap := ⟨{}⟩

instance : EmptyCollection RadioMap := ⟨{}⟩

/-- Puts a link between two nodes, in place of an earlier one. -/
def addLink (m : RadioMap) (a b : Address) (l : Link) : RadioMap :=
  { m with links := m.links.insert (.of a b) l }

/-- The link between two nodes. -/
def link? (m : RadioMap) (a b : Address) : Option Link := m.links.find? (.of a b)

/-- Changes the link between two nodes, if there is one. -/
def adjustLink (m : RadioMap) (a b : Address) (f : Link → Link) : RadioMap :=
  { m with links := m.links.adjust (.of a b) f }

/-- Changes every link. -/
def mapLinks (m : RadioMap) (f : Link → Link) : RadioMap :=
  { m with links := m.links.map fun _ => f }

variable {m : RadioMap} {a b c d : Address} {l : Link} {f : Link → Link}

theorem link?_comm : m.link? a b = m.link? b a := by rw [link?, link?, Edge.of_comm]

@[simp] theorem link?_addLink :
    (m.addLink a b l).link? c d = if Edge.of c d = Edge.of a b then some l else m.link? c d :=
  Table.find?_insert

@[simp] theorem link?_adjustLink :
    (m.adjustLink a b f).link? c d =
      if Edge.of c d = Edge.of a b then (m.link? c d).map f else m.link? c d :=
  Table.find?_adjust

@[simp] theorem link?_mapLinks : (m.mapLinks f).link? a b = (m.link? a b).map f := Table.find?_map

/-- The number of links. -/
def size (m : RadioMap) : Nat := m.links.size

/-- Whether two nodes have a link that is up. -/
def connected (m : RadioMap) (a b : Address) : Bool := (m.link? a b).any Link.active

/-- The nodes with a link to `a` that is up, in ascending order. -/
def neighbors (m : RadioMap) (a : Address) : List Address :=
  m.links.toList.filterMap fun e => if e.2.active then e.1.other? a else none

/-- Adds a standard link from `a` to each of the nodes. -/
def joinAll (a : Address) (nodes : List Address) (m : RadioMap) : RadioMap :=
  nodes.foldl (fun m b => m.addLink a b {}) m

/-- Every node hears every other node. -/
def full : List Address → RadioMap
  | [] => ∅
  | a :: nodes => joinAll a nodes (full nodes)

/-- Each node hears the nodes next to it in the list. -/
def chain : List Address → RadioMap
  | a :: b :: nodes => (chain (b :: nodes)).addLink a b {}
  | _ => ∅

/-- The first node hears every other node, and no other two hear each other. -/
def star : List Address → RadioMap
  | [] => ∅
  | hub :: spokes => joinAll hub spokes ∅

end RadioMap

end TrickleNet

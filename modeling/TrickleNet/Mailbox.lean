/-!
# Bounded mailboxes

A `Mailbox n α` is a first-in first-out queue of at most `n` messages.  Offering a message to a
full mailbox loses it, and `Mailbox.hasRoom` tells in advance; the queue never grows past its
capacity, which is part of the type.
-/

namespace TrickleNet

/-- A queue of at most `capacity` messages, oldest first. -/
@[ext] structure Mailbox (capacity : Nat) (α : Type) where
  /-- The messages that wait, oldest first. -/
  toList : List α
  /-- No more messages wait than the mailbox holds. -/
  length_le : toList.length ≤ capacity
deriving Repr

namespace Mailbox

variable {n : Nat} {α : Type}

/-- The mailbox in which nothing waits. -/
def empty : Mailbox n α := ⟨[], Nat.zero_le _⟩

instance : EmptyCollection (Mailbox n α) := ⟨empty⟩

instance : Inhabited (Mailbox n α) := ⟨empty⟩

/-- Whether one more message fits. -/
def hasRoom (m : Mailbox n α) : Bool := m.toList.length < n

/-- Appends a message, or loses it when the mailbox is full. -/
def offer (m : Mailbox n α) (a : α) : Mailbox n α :=
  if h : m.toList.length < n then ⟨m.toList ++ [a], by rw [List.length_append]; exact h⟩ else m

/-- The message that has waited longest. -/
def oldest? (m : Mailbox n α) : Option α := m.toList.head?

/-- The mailbox without its oldest message. -/
def rest (m : Mailbox n α) : Mailbox n α :=
  ⟨m.toList.tail, by
    rw [List.length_tail]
    exact Nat.le_trans (Nat.sub_le _ _) m.length_le⟩

@[simp] theorem toList_empty : (∅ : Mailbox n α).toList = [] := rfl

theorem hasRoom_iff {m : Mailbox n α} : m.hasRoom = true ↔ m.toList.length < n := by
  simp [hasRoom]

theorem toList_offer (m : Mailbox n α) (a : α) :
    (m.offer a).toList = if m.hasRoom then m.toList ++ [a] else m.toList := by
  unfold offer hasRoom
  split <;> simp_all

theorem oldest?_eq_none_iff {m : Mailbox n α} : m.oldest? = none ↔ m.toList = [] :=
  List.head?_eq_none_iff

theorem oldest?_eq_some_iff {m : Mailbox n α} {a : α} :
    m.oldest? = some a ↔ m.toList = a :: m.rest.toList := by
  show m.toList.head? = some a ↔ m.toList = a :: m.toList.tail
  cases m.toList <;> simp

end Mailbox

end TrickleNet

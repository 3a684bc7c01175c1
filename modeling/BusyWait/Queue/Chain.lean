import BusyWait.Word.Access

/-
  BusyWait.Queue.Chain — elements in a linked list of nodes.

  Nodes are numbered in the order in which they were linked; node 0 is there from the
  start and never holds an element. The head is the node before the first that a dequeue
  would look at, the tail the last node or the one before it.

  Each node has a word. Its writer's bit says that the element is claimed: moved out,
  dropped, or never there. Readers of the word look at the element in place. A claimed
  node stays linked until the head has moved past it; the node that the head leaves is
  retired.
-/

namespace BusyWait

inductive Slot (α : Type) where
  | never
  | holds (a : α)
  | moved
  | dropped
  deriving DecidableEq, Repr

def Slot.element? {α : Type} : Slot α → Option α
  | .holds a => some a
  | _ => none

structure Node (α : Type) where
  word : Word
  slot : Slot α
  next : Option Nat
  retired : Bool
  deriving DecidableEq, Repr

namespace Node

variable {α : Type}

/-- A node that never holds an element. -/
def sentinel : Node α := ⟨.owned, .never, none, false⟩

def new (a : α) : Node α := ⟨.free, .holds a, none, false⟩

def claimed (n : Node α) : Bool := n.word.writerPending

/-- Drops the element in place, if there is one. -/
def drop (n : Node α) : Node α :=
  match n.slot with
  | .holds _ => { n with slot := .dropped }
  | _ => n

end Node

structure Chain (α : Type) where
  nodes : Array (Node α)
  head : Nat
  tail : Nat

namespace Chain

variable {α : Type}

def empty : Chain α := ⟨#[.sentinel], 0, 0⟩

def node (c : Chain α) (i : Nat) : Node α := c.nodes[i]?.getD .sentinel

def modify (c : Chain α) (i : Nat) (f : Node α → Node α) : Chain α := { c with nodes := c.nodes.modify i f }

def setWord (c : Chain α) (i : Nat) (w : Word) : Chain α := c.modify i fun n => { n with word := w }

def setSlot (c : Chain α) (i : Nat) (s : Slot α) : Chain α := c.modify i fun n => { n with slot := s }

/-- A new node after node `i`. -/
def link (c : Chain α) (i : Nat) (a : α) : Chain α :=
  { c with nodes := (c.nodes.modify i fun n => { n with next := some c.nodes.size }).push (.new a) }

/-- The first `fuel` nodes after node `i`. -/
def follow (c : Chain α) : Nat → Nat → List Nat
  | 0, _ => []
  | fuel + 1, i =>
    match (c.node i).next with
    | some j => j :: c.follow fuel j
    | none => []

/-- The nodes after the head, in order. -/
def linked (c : Chain α) : List Nat := c.follow c.nodes.size c.head

/-- The nodes after the head whose element is not claimed. -/
def unclaimed (c : Chain α) : List Nat := c.linked.filter fun i => !(c.node i).claimed

def length (c : Chain α) : Nat := c.unclaimed.length

def isEmpty (c : Chain α) : Bool := c.linked.all fun i => (c.node i).claimed

/-- The elements in the chain, first first. -/
def toList (c : Chain α) : List α := c.unclaimed.filterMap fun i => (c.node i).slot.element?

/-- The elements that were put in and neither moved out nor dropped. -/
def stored (c : Chain α) : Nat := (c.nodes.filter fun n => n.slot.element?.isSome).size

/-- Drops what is left, from the head on. -/
def drop (c : Chain α) : Chain α :=
  (c.head :: c.linked).foldl (fun c i => if (c.node i).claimed then c else c.modify i Node.drop) c

/-! ## One node at a time -/

@[simp] theorem size_modify (c : Chain α) (i : Nat) (f : Node α → Node α) :
    (c.modify i f).nodes.size = c.nodes.size := by
  simp [modify]

@[simp] theorem size_link (c : Chain α) (i : Nat) (a : α) : (c.link i a).nodes.size = c.nodes.size + 1 := by
  simp [link]

@[simp] theorem head_modify (c : Chain α) (i : Nat) (f : Node α → Node α) : (c.modify i f).head = c.head := rfl

@[simp] theorem tail_modify (c : Chain α) (i : Nat) (f : Node α → Node α) : (c.modify i f).tail = c.tail := rfl

theorem node_modify (c : Chain α) (i j : Nat) (f : Node α → Node α) (h : j < c.nodes.size) :
    (c.modify i f).node j = if i = j then f (c.node j) else c.node j := by
  simp only [node, modify, Array.getElem?_modify]
  split <;> simp_all

theorem node_link (c : Chain α) (i j : Nat) (a : α) (h : j ≤ c.nodes.size) :
    (c.link i a).node j =
      if j = c.nodes.size then .new a
      else if i = j then { c.node j with next := some c.nodes.size } else c.node j := by
  simp only [node, link, Array.getElem?_push, Array.size_modify, Array.getElem?_modify]
  split
  · simp
  · have hj : j < c.nodes.size := by omega
    split <;> simp_all

end Chain

end BusyWait

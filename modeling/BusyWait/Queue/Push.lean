import BusyWait.Queue.Chain

/-
  BusyWait.Queue.Push — putting an element at the end, one access at a time.

  The new node is linked behind the node that the tail points to, if nothing is linked
  there yet, and the tail then swings to it. A tail that lags behind is helped forward
  first. Any of this may be overtaken, and is then tried again.
-/

namespace BusyWait

inductive Push (α : Type) where
  | readTail (a : α)
  | readNext (a : α) (tail : Nat)
  /-- The tail lags behind `next`. -/
  | help (a : α) (tail next : Nat)
  | link (a : α) (tail : Nat)
  | swing (tail new : Nat)
  deriving DecidableEq, Repr

namespace Chain

variable {α : Type}

/-- Moves the tail, if it is still where it was. -/
def swapTail (c : Chain α) (old new : Nat) : Chain α := if c.tail = old then { c with tail := new } else c

/-- Moves the head, if it is still where it was. -/
def swapHead (c : Chain α) (old new : Nat) : Chain α := if c.head = old then { c with head := new } else c

@[simp] theorem nodes_swapTail (c : Chain α) (i j : Nat) : (c.swapTail i j).nodes = c.nodes := by
  unfold swapTail; split <;> rfl

@[simp] theorem nodes_swapHead (c : Chain α) (i j : Nat) : (c.swapHead i j).nodes = c.nodes := by
  unfold swapHead; split <;> rfl

end Chain

def Push.step {α : Type} (c : Chain α) : Push α → Chain α × Progress (Push α) Unit
  | .readTail a => (c, .more (.readNext a c.tail))
  | .readNext a t =>
    match (c.node t).next with
    | some n => (c, .more (.help a t n))
    | none => (c, .more (.link a t))
  | .help a t n => (c.swapTail t n, .more (.readTail a))
  | .link a t =>
    if (c.node t).next = none then (c.link t a, .more (.swing t c.nodes.size)) else (c, .more (.readTail a))
  | .swing t n => (c.swapTail t n, .done ())

end BusyWait

import BusyWait.LockStep.Team

/-
  BusyWait.LockStep.Indices — a run of threads that draw indices.
-/

namespace BusyWait.LockStep.Indices

inductive Op where
  /-- The thread's own index. -/
  | get
  /-- A fresh one. -/
  | next
  /-- The slot of the thread's own index. -/
  | ownSlot (len : Nat)
  | slot (i : Index) (len : Nat)
  | raw (i : Index)
  | debug (i : Index)
  | eq (i j : Index)
  | exit
  | unknown
  deriving DecidableEq, Repr

inductive Reply where
  | index (i : Index)
  | slot (n : Nat)
  | raw (i : Index)
  | shape (s : Text.Shape)
  | flag (b : Bool)
  | fault (f : Fault)
  | refused (r : Refusal)

def slotReply : Except Fault Nat → Reply
  | .ok n => .slot n
  | .error f => .fault f

def perform (m : Team) (t : Thread) : Op → Team × Reply
  | .get => let (m, i) := m.index t; (m, .index i)
  | .next => let (m, i) := m.drawIndex; (m, .index i)
  | .ownSlot len => let (m, i) := m.index t; (m, slotReply (i.slot? len))
  | .slot i len => (m, slotReply (i.slot? len))
  | .raw i => (m, .raw i)
  | .debug i => (m, .shape i.shape)
  | .eq i j => (m, .flag (i == j))
  | .exit => let (m, b) := m.exit t; (m, .flag b)
  | .unknown => (m, .refused .unknown)

def step (m : Team) (t : Thread) (op : Op) : Team × Reply :=
  perform (if op = .exit then m else m.join t) t op

def run (m : Team) : List (Thread × Op) → List Reply
  | [] => []
  | (t, op) :: ops =>
    let (m, r) := step m t op
    r :: run m ops

end BusyWait.LockStep.Indices

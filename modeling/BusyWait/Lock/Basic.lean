import BusyWait.Policy
import BusyWait.Index
import BusyWait.Word.Access

/-
  BusyWait.Lock.Basic — what every busy lock offers.

  Readers `enter` at once or are told that a writer is present, and `leave`; a writer
  `block`s until every reader is out, and `unblock`s. Each of the four is a task of
  single accesses. Only `block` can wait, and only for readers to leave: `waits` says
  that its next access would find somebody inside.
-/

namespace BusyWait

/-- How an operation of a lock ends. -/
inductive Verdict where
  | entered
  /-- A writer is present. -/
  | refused
  | finished
  | failed (f : Fault)
  deriving DecidableEq, Repr

def Verdict.ofExcept : Except Fault Unit → Verdict
  | .ok () => .finished
  | .error f => .failed f

class Lock (L : Type) (Task : outParam Type) where
  /-- Readers are spread over stripes by their index. -/
  spread : L → Bool
  enter : L → Index → Task
  leave : L → Index → Task
  block : L → Task
  unblock : L → Task
  /-- One access: the lock after it, what is left to do, and the notes it leaves. -/
  step : L → Task → L × Progress Task Verdict × List Note
  waits : L → Task → Bool
  /-- More accesses than any operation makes that runs alone. -/
  bound : L → Nat
  /-- The readers inside, over all stripes. -/
  readers : L → Except Fault UInt32
  isBlocked : L → Bool
  /-- The readers where those of this index are counted. -/
  readersOn : L → Index → UInt32
  /-- Some count of readers is above `n`. -/
  crowded : L → UInt32 → Bool
  policy? : L → Option Policy
  /-- The words of a lock that is spread over several. -/
  stripes? : L → Option (Array Word)
  shape : L → Text.Shape

namespace Lock

variable {L T : Type} [Lock L T]

/-- A step that gathers notes. -/
def noted (s : L × List Note) (t : T) : (L × List Note) × Progress T Verdict :=
  match s with
  | (l, before) =>
    let (l, p, ns) := step l t
    ((l, before ++ ns), p)

/-- The task with nobody else acting, as far as it gets. -/
def run (l : L) (t : T) : (L × List Note) × Progress T Verdict :=
  alone noted (fun s t => waits s.1 t) (bound l) (l, []) t

end Lock

end BusyWait

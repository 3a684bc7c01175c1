import BusyWait.Fault
import BusyWait.Progress
import BusyWait.Word.Basic

/-
  BusyWait.Word.Access — what readers and writers do to a shared word, one access at a time.

  - A reader looks at the word and then tries to swap the word it saw for one with one
    more reader. A failed swap shows it the present word, on which it decides anew: it
    turns away from a writer, breaks off at a full count, and tries again otherwise.
  - A reader leaves by one subtraction, and finds out afterwards whether it was counted.
  - A writer swaps the bit in the same way, whoever set it before, and then polls until
    the word is exactly that bit.
  - A claim sets the bit by one access and tells whether it was clear.

  Failures and polls are counted in 32 bits; a count that does not fit breaks off.
-/

namespace BusyWait

/-- The count after `n`, if it fits. -/
def next? (n : UInt32) : Option UInt32 := if n = 0xFFFFFFFF then none else some (n + 1)

/-- A reader on its way in. -/
inductive Entry where
  | look
  /-- About to swap `seen` for one more reader, after so many failed swaps. -/
  | swap (seen : Word) (failures : UInt32)
  deriving DecidableEq, Repr

namespace Entry

/-- What a reader decides on the word it has just seen. -/
def judge (seen : Word) (failures : UInt32) : Progress Entry (Except Fault Bool) :=
  if seen.writerPending then .done (.ok false)
  else if seen.readers < Word.maxReaders then .more (.swap seen failures)
  else .done (.error .tooManyReaders)

def step (w : Word) : Entry → Word × Progress Entry (Except Fault Bool)
  | .look => (w, judge w 0)
  | .swap seen failures =>
    if w = seen then (w.enter, .done (.ok true))
    else match next? failures with
      | some n => (w, judge w n)
      | none => (w, .done (.error .sumOverflow))

/-- The number of failed swaps before this one, if this one fails too. -/
def contended (w : Word) : Entry → Option UInt32
  | .look => none
  | .swap seen failures => if w = seen then none else some failures

end Entry

/-- A writer on its way to the bit. -/
inductive Request where
  | look
  | swap (seen : Word) (failures : UInt32)
  deriving DecidableEq, Repr

/-- The result is the number of failed swaps. -/
def Request.step (w : Word) : Request → Word × Progress Request (Except Fault UInt32)
  | .look => (w, .more (.swap w 0))
  | .swap seen failures =>
    if w = seen then (w.raise, .done (.ok failures))
    else match next? failures with
      | some n => (w, .more (.swap w n))
      | none => (w, .done (.error .sumOverflow))

/-- A writer whose bit is set, waiting for the readers to leave. -/
structure Drain where
  yields : UInt32
  deriving DecidableEq, Repr

/-- The result is the number of polls that found somebody inside. -/
def Drain.step (w : Word) (d : Drain) : Word × Progress Drain (Except Fault UInt32) :=
  if w = .owned then (w, .done (.ok d.yields))
  else match next? d.yields with
    | some n => (w, .more ⟨n⟩)
    | none => (w, .done (.error .sumOverflow))

/-- A poll that would find somebody inside. -/
def Drain.waits (w : Word) (_ : Drain) : Bool := w != .owned

theorem Drain.step_owned (d : Drain) : d.step .owned = (.owned, .done (.ok d.yields)) := if_pos rfl

/-- A poll that finds somebody inside is counted, or is one too many. -/
theorem Drain.step_busy {w : Word} (h : w ≠ .owned) (d : Drain) :
    (∃ d', d.step w = (w, .more d')) ∨ d.step w = (w, .done (.error .sumOverflow)) := by
  unfold step
  rw [if_neg h]
  cases next? d.yields with
  | some n => exact .inl ⟨⟨n⟩, rfl⟩
  | none => exact .inr rfl

/-- A writer taking the word for itself. -/
inductive Session where
  | request (r : Request)
  | drain (failures : UInt32) (d : Drain)
  deriving DecidableEq, Repr

namespace Session

def start : Session := .request .look

/-- The result is the numbers of failed swaps and of polls. -/
def step (w : Word) : Session → Word × Progress Session (Except Fault (UInt32 × UInt32))
  | .request r =>
    match r.step w with
    | (w, .more r) => (w, .more (.request r))
    | (w, .done (.ok failures)) => (w, .more (.drain failures ⟨0⟩))
    | (w, .done (.error f)) => (w, .done (.error f))
  | .drain failures d =>
    match d.step w with
    | (w, .more d) => (w, .more (.drain failures d))
    | (w, .done (.ok yields)) => (w, .done (.ok (failures, yields)))
    | (w, .done (.error f)) => (w, .done (.error f))

def waits (w : Word) : Session → Bool
  | .request _ => false
  | .drain _ d => d.waits w

end Session

namespace Word

/-- A reader leaves; the subtraction comes before the check. -/
def release (w : Word) : Word × Except Fault Unit :=
  (w.leave, if w.readers = 0 then .error .noReaders else .ok ())

/-- A writer leaves; the bit is cleared before the check. -/
def unblock (w : Word) : Word × Except Fault Unit :=
  (w.lower, if w.writerPending then .ok () else .error .notBlocked)

/-- Sets the bit; the answer is whether it was clear. -/
def claim (w : Word) : Word × Bool := (w.raise, !w.writerPending)

end Word

end BusyWait

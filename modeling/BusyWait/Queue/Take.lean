import BusyWait.Policy
import BusyWait.Progress
import BusyWait.Queue.Error

/-
  BusyWait.Queue.Take — waiting for an element, one access at a time.

  Both kinds of wait try to dequeue, and look at their interrupt's flag only if that
  found nothing: first by a plain read, and if it is raised by a swap that lowers it.
  Whoever swaps a raised flag is interrupted. The timed wait then looks at the clock; the
  other goes on at once. So an element beats an interrupt, and that beats the time.

  Failed dequeues are counted up to the largest 32-bit number.
-/

namespace BusyWait

/-- What an access would find at some moment. -/
structure View (α : Type) where
  /-- What a dequeue would give. -/
  found : Option α
  /-- The interrupt's flag. -/
  raised : Bool
  /-- The clock. -/
  now : Nat

/-- The failed dequeues, with one more. -/
def morePolls (n : UInt32) : UInt32 := satAdd n 1

/-- A wait until there is an element. -/
inductive Take where
  | attempt (polls : UInt32)
  | look (polls : UInt32)
  | lower (polls : UInt32)
  deriving DecidableEq, Repr

namespace Take

variable {α : Type}

def start : Take := .attempt 0

def step (v : View α) : Take → Progress Take (Except QueueError α) × List Note
  | .attempt n =>
    match v.found with
    | some a => (.done (.ok a), [.sample .queueEmptyPolls n])
    | none => (.more (.look n), [])
  | .look n => (.more (if v.raised then .lower n else .attempt (morePolls n)), [])
  | .lower n =>
    if v.raised then (.done (.error .interrupted), [.event .queueInterrupted, .line (.takeInterrupted n)])
    else (.more (.attempt (morePolls n)), [])

end Take

/-- A wait until there is an element or the time is up. -/
inductive TimedPoll where
  | attempt (polls : UInt32)
  | look (polls : UInt32)
  | lower (polls : UInt32)
  | clock (polls : UInt32)
  deriving DecidableEq, Repr

namespace TimedPoll

variable {α : Type}

def start : TimedPoll := .attempt 0

/-- The moment that is `timeout` after `now`; none if the clock cannot show it. -/
def deadline? (latest now timeout : Nat) : Option Nat :=
  if now + timeout ≤ latest then some (now + timeout) else none

/-- The time is up. Without a deadline it never is. -/
def isLate (deadline : Option Nat) (now : Nat) : Bool :=
  match deadline with
  | some d => d ≤ now
  | none => false

def step (deadline : Option Nat) (v : View α) :
    TimedPoll → Progress TimedPoll (Except QueueError (Option α)) × List Note
  | .attempt n =>
    match v.found with
    | some a => (.done (.ok (some a)), [.sample .queueEmptyPolls n])
    | none => (.more (.look n), [])
  | .look n => (.more (if v.raised then .lower n else .clock n), [])
  | .lower n =>
    if v.raised then (.done (.error .interrupted), [.event .queueInterrupted, .line (.pollInterrupted n)])
    else (.more (.clock n), [])
  | .clock n =>
    if isLate deadline v.now then (.done (.ok none), [.sample .queueEmptyPolls n, .event .queueTimeout])
    else (.more (.attempt (morePolls n)), [])

end TimedPoll

end BusyWait

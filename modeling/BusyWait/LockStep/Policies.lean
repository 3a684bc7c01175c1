import BusyWait.Policy
import BusyWait.LockStep.Team

/-
  BusyWait.LockStep.Policies — waits as a policy asks for them, on one thread.

  A wait that takes too long is refused. After each wait the counters are flushed.
-/

namespace BusyWait.LockStep.Policies

/-- The longest spin, in cycles. -/
def longestSpin : UInt32 := 100000

/-- The longest sleep, in nanoseconds. -/
def longestSleep : Nat := 10000000

def tooLong : Tier → Bool
  | .spin n => longestSpin < n
  | .yield => false
  | .sleep d => longestSleep < d.total

inductive Reply where
  | counts (s : Stats) (log : List Line)
  | refused (r : Refusal)
  deriving DecidableEq, Repr

def step (p : Policy) (b : Book) (t : Thread) (attempt : UInt32) : Book × Reply :=
  if tooLong (p.tier attempt) then (b, .refused .tooLong)
  else
    let b := (b.notes t (p.wait attempt)).flush t
    (b, .counts b.global (Note.lines (p.wait attempt)))

def run (p : Policy) (b : Book) (t : Thread) : List UInt32 → List Reply
  | [] => []
  | a :: as =>
    let (b, r) := step p b t a
    r :: run p b t as

end BusyWait.LockStep.Policies

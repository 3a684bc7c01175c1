import BusyWait.Lock.Basic

/-
  BusyWait.Lock.Counted — a counter and a flag, and readers that never retry.

  A reader adds itself to the counter, then looks at the flag, and takes itself out again
  if a writer is present. The writer sets the flag and polls until the counter is zero.
  The counter is 32 bits wide and wraps; only leaving it at zero is noticed, after the
  subtraction.
-/

namespace BusyWait

structure CountedLock where
  readers : UInt32
  writer : Bool
  deriving DecidableEq, Repr

namespace CountedLock

def new : CountedLock := ⟨0, false⟩

inductive Task where
  /-- Adds itself to the counter. -/
  | count
  /-- Is counted, and looks at the flag. -/
  | check
  /-- Has seen the flag, and takes itself out. -/
  | backOut
  | leave
  /-- Sets the flag. -/
  | raise
  | drain (yields : UInt32)
  | unblock
  deriving DecidableEq, Repr

def step (l : CountedLock) : Task → CountedLock × Progress Task Verdict × List Note
  | .count => ({ l with readers := l.readers + 1 }, .more .check, [])
  | .check => (l, if l.writer then .more .backOut else .done .entered, [])
  | .backOut => ({ l with readers := l.readers - 1 }, .done .refused, [.event .readRejected])
  | .leave =>
    ({ l with readers := l.readers - 1 },
      .done (if l.readers = 0 then .failed .notAcquired else .finished), [])
  | .raise => ({ l with writer := true }, .more (.drain 0), [])
  | .drain yields =>
    if l.readers = 0 then
      (l, .done .finished, [.sample .writeWaitYields yields, .line (.countedBlocked yields)])
    else match next? yields with
      | some n => (l, .more (.drain n), [])
      | none => (l, .done (.failed .sumOverflow), [])
  | .unblock => ({ l with writer := false }, .done .finished, [])

def waits (l : CountedLock) : Task → Bool
  | .drain _ => l.readers != 0
  | _ => false

end CountedLock

instance : Lock CountedLock CountedLock.Task where
  spread _ := false
  enter _ _ := .count
  leave _ _ := .leave
  block _ := .raise
  unblock _ := .unblock
  step := CountedLock.step
  waits := CountedLock.waits
  bound _ := 4
  readers l := .ok l.readers
  isBlocked l := l.writer
  readersOn l _ := l.readers
  crowded l n := n < l.readers
  policy? _ := none
  stripes? _ := none
  shape l := .record "IncrementBusyLock" [("readers", .nat l.readers.toNat), ("writer", .bool l.writer)]

end BusyWait

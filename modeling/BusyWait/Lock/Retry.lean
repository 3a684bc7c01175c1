import BusyWait.Lock.Basic

/-
  BusyWait.Lock.Retry — the plain lock: one word, and readers that retry at once.
-/

namespace BusyWait

structure RetryLock where
  word : Word
  deriving DecidableEq, Repr

namespace RetryLock

def new : RetryLock := ⟨.free⟩

inductive Task where
  /-- A reader on its way in, and its failed swaps. -/
  | enter (e : Entry) (failures : UInt32)
  | leave
  | block (s : Session)
  | unblock
  deriving DecidableEq, Repr

def step (l : RetryLock) : Task → RetryLock × Progress Task Verdict × List Note
  | .enter e failures =>
    let failures := if (e.contended l.word).isSome then failures + 1 else failures
    match e.step l.word with
    | (w, .more e) => (⟨w⟩, .more (.enter e failures), [])
    | (w, .done (.ok true)) => (⟨w⟩, .done .entered, [.sample .readCasFailures failures])
    | (w, .done (.ok false)) =>
      (⟨w⟩, .done .refused, [.sample .readCasFailures failures, .event .readRejected])
    | (w, .done (.error f)) => (⟨w⟩, .done (.failed f), [])
  | .leave => (⟨l.word.release.1⟩, .done (.ofExcept l.word.release.2), [])
  | .block s =>
    match s.step l.word with
    | (w, .more s) => (⟨w⟩, .more (.block s), [])
    | (w, .done (.ok (failures, yields))) =>
      (⟨w⟩, .done .finished,
        [.sample .writeCasFailures failures, .sample .writeWaitYields yields, .line (.retryBlocked yields)])
    | (w, .done (.error f)) => (⟨w⟩, .done (.failed f), [])
  | .unblock => (⟨l.word.unblock.1⟩, .done (.ofExcept l.word.unblock.2), [])

def waits (l : RetryLock) : Task → Bool
  | .block s => s.waits l.word
  | _ => false

end RetryLock

/-- The shape of a word as part of a lock. -/
def Word.shape (w : Word) : Text.Shape :=
  .record "LockState" [("readers", .nat w.readers.toNat), ("writer_pending", .bool w.writerPending)]

instance : Lock RetryLock RetryLock.Task where
  spread _ := false
  enter _ _ := .enter .look 0
  leave _ _ := .leave
  block _ := .block .start
  unblock _ := .unblock
  step := RetryLock.step
  waits := RetryLock.waits
  bound _ := 4
  readers l := .ok l.word.readers
  isBlocked l := l.word.writerPending
  readersOn l _ := l.word.readers
  crowded l n := n < l.word.readers
  policy? _ := none
  stripes? _ := none
  shape l := .record "CasBusyLock" [("state", l.word.shape)]

end BusyWait

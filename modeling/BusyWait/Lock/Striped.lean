import BusyWait.Lock.Retry

/-
  BusyWait.Lock.Striped — readers spread over words of their own.

  A reader uses the word of its index only. The writer takes every word, in order: it
  blocks one until that is its own, and then goes on to the next. It gives them up in the
  same order, and stops at the first that was not blocked.
-/

namespace BusyWait

structure StripedLock where
  words : Array Word
  pos : 0 < words.size

namespace StripedLock

/-- The least distance in bytes between two stripes: a pair of cache lines each. -/
def spacing : Nat := 128

/-- A lock of `n + 1` stripes. -/
def new (n : Nat) : StripedLock := ⟨.replicate (n + 1) .free, by simp⟩

def word (l : StripedLock) (i : Nat) : Word := l.words[i]?.getD .owned

def put (l : StripedLock) (i : Nat) (w : Word) : StripedLock :=
  ⟨l.words.setIfInBounds i w, by simpa using l.pos⟩

/-- The stripe of an index. -/
def stripeOf (l : StripedLock) (i : Index) : Nat := i.slot l.words.size

@[simp] theorem size_put (l : StripedLock) (i : Nat) (w : Word) : (l.put i w).words.size = l.words.size := by
  simp [put]

theorem word_put (l : StripedLock) (i j : Nat) (w : Word) (h : i < l.words.size) :
    (l.put i w).word j = if i = j then w else l.word j := by
  simp only [put, word, Array.getElem?_setIfInBounds]
  split <;> simp_all

theorem stripeOf_lt (l : StripedLock) (i : Index) : l.stripeOf i < l.words.size := i.slot_lt l.pos

inductive Task where
  | enter (i : Index) (e : Entry) (failures : UInt32)
  | leave (i : Index)
  /-- A writer at one stripe, and its polls at those before. -/
  | block (stripe : Nat) (s : Session) (yields : UInt32)
  | unblock (stripe : Nat)
  deriving DecidableEq, Repr

def step (l : StripedLock) : Task → StripedLock × Progress Task Verdict × List Note
  | .enter i e failures =>
    let k := l.stripeOf i
    let failures := if (e.contended (l.word k)).isSome then failures + 1 else failures
    match e.step (l.word k) with
    | (w, .more e) => (l.put k w, .more (.enter i e failures), [])
    | (w, .done (.ok true)) => (l.put k w, .done .entered, [.sample .readCasFailures failures])
    | (w, .done (.ok false)) =>
      (l.put k w, .done .refused, [.sample .readCasFailures failures, .event .readRejected])
    | (w, .done (.error f)) => (l.put k w, .done (.failed f), [])
  | .leave i =>
    let r := (l.word (l.stripeOf i)).release
    (l.put (l.stripeOf i) r.1, .done (.ofExcept r.2), [])
  | .block k s yields =>
    match s.step (l.word k) with
    | (w, .more s) => (l.put k w, .more (.block k s yields), [])
    | (w, .done (.error f)) => (l.put k w, .done (.failed f), [])
    | (w, .done (.ok (failures, n))) =>
      let notes : List Note :=
        [.sample .writeCasFailures failures, .sample .writeWaitYields n, .line (.stripeBlocked k n)]
      if yields.toNat + n.toNat < 0x100000000 then
        if k + 1 < l.words.size then (l.put k w, .more (.block (k + 1) .start (yields + n)), notes)
        else (l.put k w, .done .finished, notes ++ [.line (.stripedBlocked l.words.size (yields + n))])
      else (l.put k w, .done (.failed .sumOverflow), notes)
  | .unblock k =>
    match (l.word k).unblock with
    | (w, .error f) => (l.put k w, .done (.failed f), [])
    | (w, .ok ()) => (l.put k w, if k + 1 < l.words.size then .more (.unblock (k + 1)) else .done .finished, [])

def waits (l : StripedLock) : Task → Bool
  | .block k s _ => s.waits (l.word k)
  | _ => false

/-- The sum of the readers of `ws`, added up from the left to `n`. -/
def addReaders (n : UInt32) : List Word → Except Fault UInt32
  | [] => .ok n
  | w :: ws => if n.toNat + w.readers.toNat < 0x100000000 then addReaders (n + w.readers) ws else .error .sumOverflow

def readers (l : StripedLock) : Except Fault UInt32 := addReaders 0 l.words.toList

def readersAt (l : StripedLock) (stripe : Nat) : Except Fault UInt32 :=
  if stripe < l.words.size then .ok (l.word stripe).readers else .error (.outOfBounds l.words.size stripe)

end StripedLock

instance : Lock StripedLock StripedLock.Task where
  spread _ := true
  enter _ i := .enter i .look 0
  leave _ i := .leave i
  block _ := .block 0 .start 0
  unblock _ := .unblock 0
  step := StripedLock.step
  waits := StripedLock.waits
  bound l := 4 * l.words.size + 4
  readers := StripedLock.readers
  isBlocked l := l.words.any (·.writerPending)
  readersOn l i := (l.word (l.stripeOf i)).readers
  crowded l n := l.words.any (n < ·.readers)
  policy? _ := none
  stripes? l := some l.words
  shape l := .row (l.words.toList.map Word.shape)

end BusyWait

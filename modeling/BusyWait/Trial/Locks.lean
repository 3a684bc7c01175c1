import BusyWait.LockStep.Locks

/-
  BusyWait.Trial.Locks — readers and a writer contending for one lock.

  Each reader tries to enter a number of times and leaves when it got in; the writer
  blocks and unblocks a number of times. The threads take turns, one access each. A
  violation is a moment at which a reader is inside while the writer has the lock.
-/

namespace BusyWait.Trial.Locks

variable {L T : Type} [Lock L T]

inductive ReaderStage (T : Type) where
  | outside
  | entering (t : T)
  | inside
  | leaving (t : T)

structure Reader (T : Type) where
  thread : Thread
  index : Index
  /-- The attempts still to be made. -/
  left : Nat
  stage : ReaderStage T

inductive WriterStage (T : Type) where
  | outside
  | blocking (t : T)
  | holding
  | unblocking (t : T)

structure Writer (T : Type) where
  thread : Thread
  left : Nat
  stage : WriterStage T

structure State (L T : Type) where
  lock : L
  book : Book
  readers : List (Reader T)
  writer : Writer T
  acquired : Nat
  rejected : Nat
  violations : Nat

/-- What a thread does next: one access of its task. -/
def access (l : L) (b : Book) (thread : Thread) (t : T) : L × Book × Progress T Verdict :=
  let (l, p, ns) := Lock.step l t
  (l, b.notes thread ns, p)

/-- A reader's turn. -/
def Reader.turn (s : State L T) (r : Reader T) : State L T × Reader T :=
  let act (t : T) (stage : T → ReaderStage T) : State L T × Reader T :=
    match access s.lock s.book r.thread t with
    | (l, b, .more t) => ({ s with lock := l, book := b }, { r with stage := stage t })
    | (l, b, .done .entered) =>
      ({ s with lock := l, book := b, acquired := s.acquired + 1 }, { r with stage := .inside })
    | (l, b, .done .refused) =>
      ({ s with lock := l, book := b, rejected := s.rejected + 1 }, { r with stage := .outside })
    | (l, b, .done _) => ({ s with lock := l, book := b }, { r with stage := .outside })
  match r.stage with
  | .outside =>
    match r.left with
    | 0 => (s, r)
    | n + 1 => (s, { r with left := n, stage := .entering (Lock.enter s.lock r.index) })
  | .entering t => act t .entering
  | .inside => (s, { r with stage := .leaving (Lock.leave s.lock r.index) })
  | .leaving t => act t .leaving

/-- The writer's turn. -/
def Writer.turn (s : State L T) (w : Writer T) : State L T :=
  match w.stage with
  | .outside =>
    match w.left with
    | 0 => s
    | n + 1 => { s with writer := { w with left := n, stage := .blocking (Lock.block s.lock) } }
  | .blocking t =>
    match access s.lock s.book w.thread t with
    | (l, b, .more t) => { s with lock := l, book := b, writer := { w with stage := .blocking t } }
    | (l, b, .done .finished) => { s with lock := l, book := b, writer := { w with stage := .holding } }
    | (l, b, .done _) => { s with lock := l, book := b, writer := { w with stage := .outside } }
  | .holding => { s with writer := { w with stage := .unblocking (Lock.unblock s.lock) } }
  | .unblocking t =>
    match access s.lock s.book w.thread t with
    | (l, b, .more t) => { s with lock := l, book := b, writer := { w with stage := .unblocking t } }
    | (l, b, .done _) => { s with lock := l, book := b, writer := { w with stage := .outside } }

def Reader.isInside (r : Reader T) : Bool :=
  match r.stage with
  | .inside => true
  | _ => false

def Reader.isDone (r : Reader T) : Bool :=
  match r.stage with
  | .outside => r.left == 0
  | _ => false

def Writer.isHolding (w : Writer T) : Bool :=
  match w.stage with
  | .holding => true
  | _ => false

def Writer.isDone (w : Writer T) : Bool :=
  match w.stage with
  | .outside => w.left == 0
  | _ => false

/-- A turn of every reader and then of the writer. -/
def round (s : State L T) : State L T :=
  let (s, readers) := s.readers.foldl
    (fun (s, done) r => let (s, r) := r.turn s; (s, r :: done)) (s, [])
  let s := s.writer.turn { s with readers := readers.reverse }
  if s.writer.isHolding && s.readers.any (·.isInside) then { s with violations := s.violations + 1 } else s

def isOver (s : State L T) : Bool := s.readers.all (·.isDone) && s.writer.isDone

def rounds : Nat → State L T → State L T
  | 0, s => s
  | fuel + 1, s => if isOver s then s else rounds fuel (round s)

/-- Every failed swap is another thread's success, so this many rounds are enough. -/
def bound (l : L) (threads iters windows : Nat) : Nat :=
  16 * (threads + 2) * (threads * iters + (windows + 1) * Lock.bound l)

structure Answer where
  acquired : Nat
  rejected : Nat
  readSamples : Nat
  writeFailures : Nat
  writeYields : Nat
  violations : Nat
  readers : Except Fault UInt32
  blocked : Bool

/-- The trial; each thread is gone at the end, so all counters are merged. -/
def run (l : L) (threads iters windows : Nat) : Answer :=
  let reader (t : Nat) : Reader T := ⟨t, ⟨t.toUInt64⟩, iters, .outside⟩
  let s : State L T :=
    ⟨l, .empty, (List.range threads).map reader, ⟨threads, windows, .outside⟩, 0, 0, 0⟩
  let s := rounds (bound l threads iters windows) s
  let b := (List.range (threads + 1)).foldl Book.exit s.book
  ⟨s.acquired, s.rejected, b.global.readCasFailures.count, b.global.writeCasFailures.count,
    b.global.writeWaitYields.count, s.violations, Lock.readers s.lock, Lock.isBlocked s.lock⟩

def ofVariety (threads iters windows : Nat) : LockStep.Locks.Variety → Answer
  | .retry => run RetryLock.new threads iters windows
  | .counted => run CountedLock.new threads iters windows
  | .patient p => run (PatientLock.new p) threads iters windows
  | .striped n => run (StripedLock.new n) threads iters windows

end BusyWait.Trial.Locks

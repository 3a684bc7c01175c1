import BusyWait.Lock.Patient
import BusyWait.Lock.Counted
import BusyWait.Lock.Striped
import BusyWait.LockStep.Team
import BusyWait.Text.Pad

/-
  BusyWait.LockStep.Locks — a run of operations on one lock.

  An operation runs alone until it ends. Only a writer can have to wait: it then stays in
  the middle of `block`, and goes on after each later operation as far as it gets. When
  it ends it is reported with the operation that let it through; the time it waited is
  not part of the run.

  Refused before they begin are: any operation of a thread that is waiting; a `block`
  among more readers than a run can wait for; an `unblock` while a writer waits; and,
  while one waits, a release where there are fewer readers than releases, since the
  borrow would keep the writer waiting for good. Such a refusal brings no thread to life,
  unless it takes the thread's index to see where its readers are counted.

  A guard is a read lock or a session under a name, on one thread. Dropping it releases
  or unblocks; a thread that exits leaves its guards unreleased.
-/

namespace BusyWait.LockStep.Locks

open Text

inductive Op where
  /-- As many times as it says, if it says. -/
  | enter (n : Option Nat)
  | leave (n : Nat)
  | block
  | unblock
  | read (g : String)
  | write (g : String)
  | drop (g : String)
  | formatGuard (g : String) (f : Field)
  | readers
  | isBlocked
  | debug (alt : Bool)
  | policy
  | index
  | nextIndex
  | tally (t : Tally)
  | exit
  | enterAt (i : Index) (n : Option Nat)
  | leaveAt (i : Index) (n : Nat)
  | readersAt (stripe : Nat)
  | stripeOf (i : Index)
  | stripeCount
  | ownStripe
  | unknown
  deriving DecidableEq, Repr

inductive Reply where
  | done
  | flag (b : Bool)
  | count (n : Nat)
  | text (s : String)
  | policy (p : Option Policy)
  | index (i : Index)
  | tally (t : TallyReply)
  | waiting
  | fault (f : Fault)
  | refused (r : Refusal)

inductive GuardKind where
  | read
  | write
  deriving DecidableEq, Repr

structure Guard where
  thread : Thread
  name : String
  kind : GuardKind
  deriving DecidableEq, Repr

def GuardKind.text : GuardKind → String
  | .read => "ReadGuard \x7b .. \x7d"
  | .write => "WriteGuard \x7b .. \x7d"

/-- A writer in the middle of `block`. -/
structure Writer (T : Type) where
  thread : Thread
  task : T
  /-- The guard that it is to hold, if it was asked for one. -/
  guard : Option String
  log : List Line

structure State (L T : Type) where
  lock : L
  team : Team
  guards : List Guard
  waiting : List (Writer T)

/-- A writer that got through: its thread, its reply, and what it logged. -/
structure Finished where
  thread : Thread
  reply : Reply
  log : List Line

/-- The words of a striped lock, where they are to be shown. -/
abbrev Stripes := Option (Array Word)

structure Report where
  reply : Reply
  log : List Line
  finished : List Finished
  readers : Except Fault UInt32
  blocked : Bool
  stripes : Stripes

/-- More readers than a run waits for. -/
def crowd : UInt32 := 1000000

variable {L T : Type} [Lock L T]

namespace State

def start (l : L) : State L T := ⟨l, .start, [], []⟩

def isWaiting (s : State L T) (t : Thread) : Bool := s.waiting.any (·.thread == t)

/-- Runs a task on a thread and keeps its notes. -/
def run (s : State L T) (t : Thread) (task : T) : State L T × Progress T Verdict × List Line :=
  let ((l, ns), p) := Lock.run s.lock task
  ({ s with lock := l, team := s.team.note t ns }, p, Note.lines ns)

/-- The index that the lock needs of the thread, drawn only if it needs one. -/
def indexFor (s : State L T) (t : Thread) : State L T × Index :=
  if Lock.spread s.lock then
    let (m, i) := (s.team.join t).index t
    ({ s with team := m }, i)
  else (s, ⟨0⟩)

/-- The reply of an operation that ran to its end. -/
def reply (onFinished : Reply) : Progress T Verdict → Reply
  | .done .entered => .flag true
  | .done .refused => .flag false
  | .done .finished => onFinished
  | .done (.failed f) => .fault f
  | .more _ => .waiting

def enterOnce (s : State L T) (t : Thread) (i : Index) : State L T × Progress T Verdict :=
  let (s, p, _) := s.run t (Lock.enter s.lock i)
  (s, p)

/-- `n` attempts; the reply is how many succeeded, beside `got`. -/
def enterMany (s : State L T) (t : Thread) (i : Index) (got : Nat) : Nat → State L T × Reply
  | 0 => (s, .count got)
  | n + 1 =>
    match s.enterOnce t i with
    | (s, .done (.failed f)) => (s, .fault f)
    | (s, .done .entered) => enterMany s t i (got + 1) n
    | (s, _) => enterMany s t i got n

def enter (s : State L T) (t : Thread) (i : Index) : Option Nat → State L T × Reply
  | none => let (s, p) := s.enterOnce t i; (s, reply .done p)
  | some n => s.enterMany t i 0 n

/-- `n` releases, up to the first that fails. -/
def leaveMany (s : State L T) (t : Thread) (i : Index) : Nat → State L T × Reply
  | 0 => (s, .done)
  | n + 1 =>
    match s.run t (Lock.leave s.lock i) with
    | (s, .done .finished, _) => leaveMany s t i n
    | (s, p, _) => (s, reply .done p)

/-- `f` with the thread's index; doing something no times takes no index. -/
def withIndex (s : State L T) (t : Thread) (times : Option Nat) (f : State L T → Index → State L T × Reply) :
    State L T × Reply :=
  match times with
  | some 0 => f s ⟨0⟩
  | _ =>
    let (s, i) := s.indexFor t
    f s i

/-- What a writer replies who is through. -/
def writerReply (guard : Option String) : Reply := if guard.isSome then .flag true else .done

/-- A writer's guard, if it was asked for one. -/
def hold (s : State L T) (t : Thread) : Option String → State L T
  | none => s
  | some g => { s with guards := s.guards ++ [⟨t, g, .write⟩] }

def block (s : State L T) (t : Thread) (guard : Option String) : State L T × Reply × List Line :=
  match s.run t (Lock.block s.lock) with
  | (s, .more task, log) => ({ s with waiting := s.waiting ++ [⟨t, task, guard, log⟩] }, .waiting, [])
  | (s, .done .finished, log) => (s.hold t guard, writerReply guard, log)
  | (s, p, log) => (s, reply .done p, log)

def unblock (s : State L T) (t : Thread) : State L T × Reply :=
  let (s, p, _) := s.run t (Lock.unblock s.lock)
  (s, reply .done p)

def guard? (s : State L T) (t : Thread) (g : String) : Option Guard :=
  s.guards.find? fun h => h.thread == t && h.name == g

def dropGuard (s : State L T) (t : Thread) (g : Guard) : State L T × Reply :=
  let s := { s with guards := s.guards.erase g }
  match g.kind with
  | .read =>
    let (s, i) := s.indexFor t
    s.leaveMany t i 1
  | .write => s.unblock t

/-- An operation that only a lock of several stripes has. -/
def onStripes (s : State L T) (f : Array Word → State L T × Reply) : State L T × Reply :=
  match Lock.stripes? s.lock with
  | some ws => f ws
  | none => (s, .refused .notOfThisLock)

def readersReply : Except Fault UInt32 → Reply
  | .ok n => .count n.toNat
  | .error f => .fault f

/-- The readers of one stripe. -/
def stripeReaders (ws : Array Word) (stripe : Nat) : Except Fault UInt32 :=
  match ws[stripe]? with
  | some w => .ok w.readers
  | none => .error (.outOfBounds ws.size stripe)

/-- While a writer waits, `n` releases where there are fewer readers are refused. -/
def refusedLeave (s : State L T) (i : Index) (n : Nat) : Option Refusal :=
  if (Lock.readersOn s.lock i).toNat < n then some .wouldHang else none

/-- Whether an operation is refused before it begins. -/
def consider (s : State L T) (t : Thread) : Op → State L T × Option Refusal
  | .block | .write _ => (s, if Lock.crowded s.lock crowd then some .wouldHang else none)
  | .unblock => (s, if s.waiting.isEmpty then none else some .writerWaiting)
  | .leave n =>
    if s.waiting.isEmpty then (s, none)
    else
      let (s, i) := s.indexFor t
      (s, s.refusedLeave i n)
  | .leaveAt i n => (s, if s.waiting.isEmpty then none else s.refusedLeave i n)
  | _ => (s, none)

/-- An operation that was not refused, of a thread that is alive unless it exits. -/
def perform (s : State L T) (t : Thread) : Op → State L T × Reply × List Line
  | .enter n => let (s, r) := s.withIndex t n fun s i => s.enter t i n; (s, r, [])
  | .leave n => let (s, r) := s.withIndex t (some n) fun s i => s.leaveMany t i n; (s, r, [])
  | .block => s.block t none
  | .unblock => let (s, r) := s.unblock t; (s, r, [])
  | .read g =>
    let (s, i) := s.indexFor t
    match s.enterOnce t i with
    | (s, .done .entered) => ({ s with guards := s.guards ++ [⟨t, g, .read⟩] }, .flag true, [])
    | (s, p) => (s, reply .done p, [])
  | .write g => s.block t (some g)
  | .drop g =>
    match s.guard? t g with
    | some h => let (s, r) := s.dropGuard t h; (s, r, [])
    | none => (s, .refused .noSuchGuard, [])
  | .formatGuard g f =>
    match s.guard? t g with
    | some h => (s, .text (f.show h.kind.text), [])
    | none => (s, .refused .noSuchGuard, [])
  | .readers => (s, readersReply (Lock.readers s.lock), [])
  | .isBlocked => (s, .flag (Lock.isBlocked s.lock), [])
  | .debug alt => (s, .text ((Lock.shape s.lock).text alt), [])
  | .policy => (s, .policy (Lock.policy? s.lock), [])
  | .index =>
    let (m, i) := s.team.index t
    ({ s with team := m }, .index i, [])
  | .nextIndex =>
    let (m, i) := s.team.drawIndex
    ({ s with team := m }, .index i, [])
  | .tally op =>
    let (m, r) := s.team.tally t op
    ({ s with team := m }, .tally r, [])
  | .exit =>
    let (m, b) := s.team.exit t
    ({ s with team := m, guards := s.guards.filter (·.thread != t) }, .flag b, [])
  | .enterAt i n => let (s, r) := s.onStripes fun _ => s.enter t i n; (s, r, [])
  | .leaveAt i n => let (s, r) := s.onStripes fun _ => s.leaveMany t i n; (s, r, [])
  | .readersAt k => let (s, r) := s.onStripes fun ws => (s, readersReply (stripeReaders ws k)); (s, r, [])
  | .stripeOf i => let (s, r) := s.onStripes fun ws => (s, .count (i.slot ws.size)); (s, r, [])
  | .stripeCount => let (s, r) := s.onStripes fun ws => (s, .count ws.size); (s, r, [])
  | .ownStripe =>
    let (s, r) := s.onStripes fun ws =>
      let (m, i) := s.team.index t
      ({ s with team := m }, .count (i.slot ws.size))
    (s, r, [])
  | .unknown =>
    (s, .refused (if (Lock.stripes? s.lock).isSome then .unknown else .notOfThisLock), [])

/-- Lets one writer go on as far as it gets. -/
def advance (s : State L T) (w : Writer T) : State L T × Option Finished :=
  match s.run w.thread w.task with
  | (s, .more task, log) => ({ s with waiting := s.waiting ++ [⟨w.thread, task, w.guard, w.log ++ log⟩] }, none)
  | (s, .done .finished, log) =>
    (s.hold w.thread w.guard, some ⟨w.thread, writerReply w.guard, w.log ++ log⟩)
  | (s, p, log) => (s, some ⟨w.thread, reply .done p, w.log ++ log⟩)

/-- Lets each waiting writer go on once. -/
def advanceAll (s : State L T) : State L T × List Finished :=
  s.waiting.foldl (fun (s, done) w => let (s, f) := s.advance w; (s, done ++ f.toList)) ({ s with waiting := [] }, [])

/-- Lets the waiting writers go on until none of them can: one may make way for another. -/
def settle (s : State L T) : Nat → State L T × List Finished
  | 0 => (s, [])
  | n + 1 =>
    let (s, done) := s.advanceAll
    let (s, later) := settle s n
    (s, done ++ later)

def byThread (a b : Finished) : Bool := a.thread ≤ b.thread

/-- An operation of any thread. -/
def attempt (s : State L T) (t : Thread) (op : Op) : State L T × Reply × List Line :=
  if s.isWaiting t then (s, .refused .threadWaiting, [])
  else
    match s.consider t op with
    | (s, some r) => (s, .refused r, [])
    | (s, none) => perform (if op = .exit then s else { s with team := s.team.join t }) t op

/-- One operation, and then the writers that it lets through. -/
def step (s : State L T) (t : Thread) (op : Op) : State L T × Report :=
  let (s, r, log) := s.attempt t op
  let (s, done) := s.settle (s.waiting.length + 1)
  (s, ⟨r, log, done.mergeSort byThread, Lock.readers s.lock, Lock.isBlocked s.lock,
    Lock.stripes? s.lock⟩)

def runAll (s : State L T) : List (Thread × Op) → State L T × List Report
  | [] => (s, [])
  | (t, op) :: ops =>
    let (s, r) := s.step t op
    let (s, rs) := runAll s ops
    (s, r :: rs)

end State

/-- The reports, and how many writers still wait at the end. -/
def run (l : L) (ops : List (Thread × Op)) : List Report × Nat :=
  let (s, rs) := (State.start (T := T) l).runAll ops
  (rs, s.waiting.length)

/-! ## Which lock -/

/-- A lock by description. -/
inductive Variety where
  | retry
  | counted
  | patient (policy : Policy)
  /-- With one stripe more than the number says. -/
  | striped (more : Nat)
  deriving DecidableEq, Repr

/-- The stripe counts that a run offers. -/
def stripeCounts : List Nat := [1, 2, 3, 4, 5, 7, 8, 16, 32, 64]

def defaultStripes : Nat := 16

def Variety.ofName? (name : String) (stripes : Nat) (policy : Policy) : Option Variety :=
  match name with
  | "cas" => some .retry
  | "increment" => some .counted
  | "backoff" => some (.patient policy)
  | "striped" => if stripes ∈ stripeCounts then some (.striped (stripes - 1)) else none
  | _ => none

def Variety.run (ops : List (Thread × Op)) : Variety → List Report × Nat
  | .retry => Locks.run RetryLock.new ops
  | .counted => Locks.run CountedLock.new ops
  | .patient p => Locks.run (PatientLock.new p) ops
  | .striped n => Locks.run (StripedLock.new n) ops

end BusyWait.LockStep.Locks

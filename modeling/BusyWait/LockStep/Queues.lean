import BusyWait.LockStep.Element
import BusyWait.LockStep.Team
import BusyWait.Queue.Job
import BusyWait.Text.Pad

/-
  BusyWait.LockStep.Queues — a run of operations on one queue.

  An operation runs alone until it ends or can only wait. What waits goes on after each
  later operation as far as it gets, and is reported with the operation after which it
  ended. Three things wait:
  - a claim of an element that somebody looks at;
  - a `take` or a long timed poll of an empty queue, if it is asked to wait; a timed poll
    that is short has its time run out at once;
  - a `hold`: a removal that stays with the first element equal to a given one until its
    thread resumes it.

  Refused before they begin, so that they bring no thread to life, are: anything after
  the queue was dropped; any operation of a thread that waits; a wait for an element that
  was not asked for, or that is the second one; dropping the queue while something waits;
  resuming what is not held. An iterator that is not there is refused by its thread.
-/

namespace BusyWait.LockStep.Queues

open Text

inductive Op where
  | call (c : Call Seen Element)
  | capacity
  /-- The interrupt by name, and whether to wait for an element. -/
  | take (i : String) (wait : Bool)
  | pollTimeout (timeout : Duration) (i : String) (wait : Bool)
  | iter (it : String)
  | next (it : String) (n : Option Nat)
  | formatIter (it : String) (f : Field)
  | dropIter (it : String)
  | interrupt (i : String)
  | clearInterrupt (i : String)
  | isInterrupted (i : String)
  | debugInterrupt (i : String)
  /-- From now on both names stand for the first one's flag. -/
  | cloneInterrupt (i copy : String)
  | hold (target : Element) (keep : Bool)
  | resume
  | debug (alt : Bool)
  | tally (t : Tally)
  | exit
  | dropQueue
  | unknown

inductive Reply where
  | of (r : BusyWait.Reply Seen Element)
  | done
  | flag (b : Bool)
  | decimal (n : Nat)
  | text (s : String)
  | shape (s : Shape)
  | tally (t : TallyReply)
  | waiting
  | refused (r : Refusal)

/-- An operation that waits. -/
structure Pending where
  thread : Thread
  job : Job Seen Element
  /-- It stays with the element that it looks at. -/
  held : Bool
  log : List Line

structure Iterator where
  thread : Thread
  name : String
  cursor : Nat

structure State where
  shared : Shared Element
  team : Team
  /-- The flag of each named interrupt. -/
  interrupts : List (String × Nat)
  iterators : List Iterator
  pending : List Pending
  dropped : Bool

structure Finished where
  thread : Thread
  reply : Reply
  log : List Line

/-- What is seen of a queue that was not dropped. -/
structure Glance where
  len : Nat
  empty : Bool
  items : List Element

structure Report where
  reply : Reply
  log : List Line
  finished : List Finished
  glance : Option Glance
  live : Nat

/-- The longest wait whose time runs out within a run, in nanoseconds. -/
def shortest : Nat := 20000000

/-- How many elements a queue has room for: as many as can be counted. -/
def capacity : Nat := 0xFFFFFFFFFFFFFFFF

def iterShown : String := "Iter \x7b .. \x7d"

def interruptShape (raised : Bool) : Shape := .record "Interrupt" [("interrupted", .bool raised)]

def queueShape (len : Nat) : Shape := .record "SpinningQueue" [("len", .nat len)]

namespace State

def isPending (s : State) (t : Thread) : Bool := s.pending.any (·.thread == t)

/-- The flag of a named interrupt; a new name gets a new flag. -/
def flagOf (s : State) (i : String) : State × Nat :=
  match s.interrupts.lookup i with
  | some f => (s, f)
  | none =>
    ({ s with
        interrupts := (i, s.shared.flags.size) :: s.interrupts
        shared := { s.shared with flags := s.shared.flags.push false } }, s.shared.flags.size)

/-- The end of the time of a timed poll that waits for an element only a short while. -/
def lapse? (m : Shared Element) : Job Seen Element → Option Nat
  | .pollTimeout t p flag (some d) =>
    if (Job.pollTimeout t p flag (some d) : Job Seen Element).idles m && d ≤ m.now + shortest then some d else none
  | _ => none

/-- Runs a job on a thread as far as it gets and keeps its notes. -/
def run (s : State) (t : Thread) (pause : Shared Element → Job Seen Element → Bool) (j : Job Seen Element) :
    State × Progress (Job Seen Element) (BusyWait.Reply Seen Element) × List Line :=
  let ((m, ns), p) := j.run pause s.shared
  let s := { s with shared := m, team := s.team.note t ns }
  match p with
  | .done r => (s, .done r, Note.lines ns)
  | .more j =>
    match lapse? m j with
    | none => (s, .more j, Note.lines ns)
    | some d =>
      let ((m, ms), p) := j.run pause { m with now := d }
      ({ s with shared := m, team := s.team.note t ms }, p, Note.lines (ns ++ ms))

def never (_ : Shared Element) (_ : Job Seen Element) : Bool := false

/-- The job is about to look at an element equal to `e`. -/
def meets (e : Element) (m : Shared Element) (j : Job Seen Element) : Bool :=
  match j.looksAt? m with
  | some x => x == e
  | none => false

/-- Starts a call on a thread; it may stay with an element. -/
def call (s : State) (t : Thread) (c : Call Seen Element) (stay : Option Element) :
    State × Reply × List Line :=
  match Job.start [] s.shared c with
  | (.done r, ns) => ({ s with team := s.team.note t ns }, .of r, Note.lines ns)
  | (.more j, _) =>
    let pause := (stay.map meets).getD never
    match s.run t pause j with
    | (s, .done r, log) => (s, .of r, log)
    | (s, .more j, log) =>
      ({ s with pending := s.pending ++ [⟨t, j, pause s.shared j, log⟩] }, .waiting, [])

/-- Somebody waits for an element. -/
def consumerWaits (s : State) : Bool := s.pending.any fun p => p.job.idles s.shared

/-- A long wait for an element is refused, if there is none, its interrupt is not raised, and it is not to wait
or somebody else does. -/
def refusedWait (s : State) (flag : Nat) (wait : Bool) : Option Refusal :=
  if s.shared.chain.isEmpty && !s.shared.raised flag then
    if !wait then some .wouldHang
    else if s.consumerWaits then some .consumerWaiting
    else none
  else none

/-- Whether an operation is refused before it begins. -/
def consider (s : State) : Op → State × Option Refusal
  | .take i wait =>
    let (s, f) := s.flagOf i
    (s, s.refusedWait f wait)
  | .pollTimeout d i wait =>
    let (s, f) := s.flagOf i
    (s, if shortest < d.total then s.refusedWait f wait else none)
  | .dropQueue => (s, if s.pending.isEmpty then none else some .queueInUse)
  | _ => (s, none)

def iterator? (s : State) (t : Thread) (it : String) : Option Iterator :=
  s.iterators.find? fun i => i.thread == t && i.name == it

def dropIterator (s : State) (t : Thread) (it : String) : State :=
  { s with iterators := s.iterators.filter fun i => !(i.thread == t && i.name == it) }

/-- Puts an iterator on a node, in place of one of the same name. -/
def setIterator (s : State) (t : Thread) (it : String) (cursor : Nat) : State :=
  let s := s.dropIterator t it
  { s with iterators := ⟨t, it, cursor⟩ :: s.iterators }

/-- Goes on with the iterator and keeps the node that it has reached. -/
def advanceIterator (s : State) (t : Thread) (i : Iterator) (n : Option Nat) : State × Reply × List Line :=
  match s.call t (.next i.cursor n) none with
  | (s, .of (.stepped r cursor), log) => (s.setIterator t i.name cursor, .of (.stepped r cursor), log)
  | r => r

/-- Lets the operation that stays with an element go on. -/
def resume (s : State) (t : Thread) : State × Reply × List Line :=
  match s.pending.find? fun p => p.thread == t && p.held with
  | none => (s, .refused .nothingHeld, [])
  | some p =>
    let s := { s with pending := s.pending.filter (·.thread != t) }
    match s.run t never p.job with
    | (s, .done r, log) => (s, .of r, p.log ++ log)
    | (s, .more j, log) => ({ s with pending := s.pending ++ [⟨t, j, false, p.log ++ log⟩] }, .waiting, [])

/-- An operation that was not refused, of a thread that is alive unless it exits. -/
def perform (s : State) (t : Thread) : Op → State × Reply × List Line
  | .call c => s.call t c none
  | .capacity => (s, .decimal capacity, [])
  | .take i _ =>
    let (s, f) := s.flagOf i
    s.call t (.take f) none
  | .pollTimeout d i _ =>
    let (s, f) := s.flagOf i
    s.call t (.pollTimeout d f) none
  | .iter it => (s.setIterator t it s.shared.chain.head, .done, [])
  | .next it n =>
    match s.iterator? t it with
    | some i => s.advanceIterator t i n
    | none => (s, .refused .noSuchIterator, [])
  | .formatIter it f =>
    (s, if (s.iterator? t it).isSome then .text (f.show iterShown) else .refused .noSuchIterator, [])
  | .dropIter it =>
    if (s.iterator? t it).isSome then (s.dropIterator t it, .done, []) else (s, .refused .noSuchIterator, [])
  | .interrupt i =>
    let (s, f) := s.flagOf i
    ({ s with shared := s.shared.setFlag f true }, .done, [])
  | .clearInterrupt i =>
    let (s, f) := s.flagOf i
    ({ s with shared := s.shared.setFlag f false }, .done, [])
  | .isInterrupted i =>
    let (s, f) := s.flagOf i
    (s, .flag (s.shared.raised f), [])
  | .debugInterrupt i =>
    let (s, f) := s.flagOf i
    (s, .shape (interruptShape (s.shared.raised f)), [])
  | .cloneInterrupt i copy =>
    let (s, f) := s.flagOf i
    ({ s with interrupts := (copy, f) :: s.interrupts }, .done, [])
  | .hold e keep => s.call t (.retain (holdAsk e keep)) (some e)
  | .resume => (s, .refused .nothingHeld, [])
  | .debug alt => (s, .text ((queueShape s.shared.chain.length).text alt), [])
  | .tally op =>
    let (m, r) := s.team.tally t op
    ({ s with team := m }, .tally r, [])
  | .exit =>
    let (m, b) := s.team.exit t
    ({ s with team := m, iterators := s.iterators.filter (·.thread != t) }, .flag b, [])
  | .dropQueue => ({ s with shared := { s.shared with chain := s.shared.chain.drop }, dropped := true }, .done, [])
  | .unknown => (s, .refused .unknown, [])

/-- Lets one operation that waits go on as far as it gets. -/
def advance (s : State) (p : Pending) : State × Option Finished :=
  if p.held then ({ s with pending := s.pending ++ [p] }, none)
  else
    match s.run p.thread never p.job with
    | (s, .done r, log) => (s, some ⟨p.thread, .of r, p.log ++ log⟩)
    | (s, .more j, log) => ({ s with pending := s.pending ++ [⟨p.thread, j, false, p.log ++ log⟩] }, none)

def advanceAll (s : State) : State × List Finished :=
  s.pending.foldl (fun (s, done) p => let (s, f) := s.advance p; (s, done ++ f.toList)) ({ s with pending := [] }, [])

/-- Lets what waits go on until nothing can: one may make way for another. -/
def settle (s : State) : Nat → State × List Finished
  | 0 => (s, [])
  | n + 1 =>
    let (s, done) := s.advanceAll
    let (s, later) := settle s n
    (s, done ++ later)

def byThread (a b : Finished) : Bool := a.thread ≤ b.thread

/-- The thread comes to life, unless the operation is its end. -/
def joinFor (s : State) (t : Thread) : Op → State
  | .exit => s
  | _ => { s with team := s.team.join t }

/-- An operation of any thread. -/
def attempt (s : State) (t : Thread) (op : Op) : State × Reply × List Line :=
  if s.dropped then (s, .refused .queueDropped, [])
  else match op with
    | .resume => s.resume t
    | op =>
      if s.isPending t then (s, .refused .threadWaiting, [])
      else
        match s.consider op with
        | (s, some r) => (s, .refused r, [])
        | (s, none) => (s.joinFor t op).perform t op

def glance (s : State) : Option Glance :=
  if s.dropped then none else some ⟨s.shared.chain.length, s.shared.chain.isEmpty, s.shared.chain.toList⟩

/-- One operation, and then what goes on after it. -/
def step (s : State) (t : Thread) (op : Op) : State × Report :=
  let (s, r, log) := s.attempt t op
  let (s, done) := s.settle (s.pending.length + 1)
  (s, ⟨r, log, done.mergeSort byThread, s.glance, s.shared.chain.stored⟩)

def runAll (s : State) : List (Thread × Op) → State × List Report
  | [] => (s, [])
  | (t, op) :: ops =>
    let (s, r) := s.step t op
    let (s, rs) := runAll s ops
    (s, r :: rs)

/-- Ends what waits: held operations are resumed, and then every interrupt is raised. -/
def finish (s : State) : State :=
  let s := s.pending.foldl (fun s p => if p.held then (s.resume p.thread).1 else s) s
  let s := { s with shared := { s.shared with flags := s.shared.flags.map fun _ => true } }
  (s.settle (s.pending.length + 1)).1

/-- A queue that holds these elements. -/
def start (es : List Element) : State :=
  let s : State := ⟨.empty, .start, [], [], [], false⟩
  (s.call 0 (.addAll es) none).1

end State

structure Answer where
  reports : List Report
  /-- What the queue holds once nothing waits any more, unless it was dropped. -/
  items : Option (List Element)
  /-- The operations that had to be made to end. -/
  waiting : Nat
  /-- The elements still there after the queue was dropped. -/
  left : Nat

def run (es : List Element) (ops : List (Thread × Op)) : Answer :=
  let (s, rs) := (State.start es).runAll ops
  let ended := s.finish
  ⟨rs, ended.glance.map (·.items), s.pending.length, ended.shared.chain.drop.stored⟩

end BusyWait.LockStep.Queues

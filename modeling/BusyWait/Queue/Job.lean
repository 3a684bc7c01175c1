import BusyWait.Queue.Pop
import BusyWait.Queue.Take
import BusyWait.Queue.Walk

/-
  BusyWait.Queue.Job — the operations of the spinning queue, one access at a time.

  A call becomes a job. Jobs share a chain, the flags of the interrupts and a clock; a
  job makes one access at each step. It can only wait for two things: that nobody looks
  at an element it has claimed (`waits`), and, if it is a `take` or a timed poll, that
  something turns up (`idles`).

  `len` and `isEmpty` are one look at the whole chain, at the moment they are called. They
  are meant for whole operations, with nobody else acting; counted from node to node while
  others act, the number is only a snapshot, and nothing is said of it here.

  Elements are compared by `==`, which need not be reflexive. An element of the queue
  stands on the left where one item is given, and on the right where a list is.
-/

namespace BusyWait

/-- What the threads share. -/
structure Shared (α : Type) where
  chain : Chain α
  flags : Array Bool
  now : Nat

namespace Shared

variable {α : Type}

def empty : Shared α := ⟨.empty, #[], 0⟩

def raised (s : Shared α) (flag : Nat) : Bool := s.flags[flag]?.getD false

def setFlag (s : Shared α) (flag : Nat) (b : Bool) : Shared α := { s with flags := s.flags.setIfInBounds flag b }

/-- An access to the chain. -/
def onChain {β : Type} (s : Shared α) (f : Chain α → Chain α × β) : Shared α × β :=
  match s with
  | ⟨c, flags, now⟩ =>
    let (c, b) := f c
    (⟨c, flags, now⟩, b)

/-- What an access finds that is not a dequeue. -/
def view (s : Shared α) (flag : Nat) : View α := ⟨none, s.raised flag, s.now⟩

end Shared

/-- A call of a queue operation. -/
inductive Call (σ α : Type) where
  | add (a : α)
  | offer (a : α)
  | offerTimeout (a : α) (timeout : Duration)
  | put (a : α)
  | addAll (as : List α)
  | poll
  /-- So many polls, one after the other. -/
  | pollMany (n : Nat)
  | removeFirst
  | take (flag : Nat)
  | pollTimeout (timeout : Duration) (flag : Nat)
  | peek
  | element
  | len
  | isEmpty
  | toList
  | contains (a : α)
  | containsAll (as : List α)
  | removeItem (a : α)
  | removeAll (as : List α)
  | retainAll (as : List α)
  /-- Keeps the elements of which the answer is yes. -/
  | retain (keep : Ask σ α)
  | clear
  | drainTo (sink : List α)
  | drainToMax (sink : List α) (max : Nat)
  /-- Goes on from a node: one element, or as many as it says. -/
  | next (cursor : Nat) (n : Option Nat)
  /-- Whether there is an element of which the answer is yes. -/
  | any (ask : Ask σ α)
  /-- Removes the elements of which the answer is yes, up to a limit. -/
  | removeWhere (ask : Ask σ α) (limit : Option Nat)

inductive Reply (σ α : Type) where
  | done
  | yes (b : Bool)
  | count (n : Nat)
  | element (a : Option α)
  | elements (as : List (Option α))
  | all (as : List α)
  | result (r : Except QueueError α)
  | timed (r : Except QueueError (Option α))
  /-- Whether anything was removed, and the state of the question afterwards. -/
  | retained (removed : Except Fault Bool) (state : σ)
  | found (b : Except Fault Bool) (state : σ)
  | removed (n : Except Fault Nat) (state : σ)
  | drained (n : Nat) (sink : List α)
  | drainedMax (r : Except QueueError Nat) (sink : List α)
  /-- What an iterator gave, and the node that it has reached. -/
  | stepped (r : Sum (Option α) (List (Option α))) (cursor : Nat)
  | fault (f : Fault)

inductive Job (σ α : Type) where
  | push (p : Push α) (rest : List α) (reply : Reply σ α)
  | pop (p : Pop) (reply : Option α → Reply σ α)
  | popMany (p : Pop) (left : Nat) (got : List (Option α))
  | walk (aim : Aim σ α) (w : Walk σ α) (reply : Walked σ α → Reply σ α)
  | next (w : Walk σ α) (left : Nat) (got : List (Option α))
  | collect (w : Walk σ α) (got : List α)
  | containsAll (item : α) (w : Walk σ α) (rest : List α)
  | take (t : Take) (p : Pop) (flag : Nat)
  | pollTimeout (t : TimedPoll) (p : Pop) (flag : Nat) (deadline : Option Nat)

namespace Job

variable {σ α : Type}

/-- The last moment that the clock can show, in nanoseconds. -/
def latest : Nat := 0x7FFFFFFFFFFFFFFF * 1000000000 + 999999999

def emptyOr : Option α → Except QueueError α
  | some a => .ok a
  | none => .error .empty

/-- A question without a state of its own. -/
def plain (p : α → Bool) : Ask σ α := fun s a => (s, .ok (p a))

/-- The same question with the answers turned round. -/
def negated (ask : Ask σ α) : Ask σ α := fun s a => ((ask s a).1, (ask s a).2.map not)

/-- What a walk that copies replies. -/
def copyReply (reply : Option α → Reply σ α) (w : Walked σ α) : Reply σ α :=
  match w.outcome with
  | .copied a => reply a
  | .broke f => .fault f
  | _ => .fault .absent

def foundOf (w : Walked σ α) : Except Fault Bool :=
  match w.outcome with
  | .found b => .ok b
  | .broke f => .error f
  | _ => .error .absent

def removedOf (w : Walked σ α) : Except Fault Nat :=
  match w.outcome with
  | .removed n => .ok n
  | .broke f => .error f
  | _ => .error .absent

/-- What a removal replies that is asked only whether it removed anything. -/
def anyRemoved (w : Walked σ α) : Reply σ α :=
  match removedOf w with
  | .ok n => .yes (0 < n)
  | .error f => .fault f

section
variable [BEq α]

/-- `x` is among `items`, each of which is asked whether it equals `x`. -/
def among (items : List α) (x : α) : Bool := items.any (· == x)

/-- A call as a job, with `init` as the state of its question, or the reply to one that makes no access. -/
def start (init : σ) (s : Shared α) : Call σ α → Progress (Job σ α) (Reply σ α) × List Note
  | .add a | .offer a | .offerTimeout a _ => (.more (.push (.readTail a) [] (.yes true)), [])
  | .put a => (.more (.push (.readTail a) [] .done), [])
  | .addAll [] => (.done (.yes false), [])
  | .addAll (a :: as) => (.more (.push (.readTail a) as (.yes true)), [])
  | .poll => (.more (.pop .readHead .element), [])
  | .pollMany 0 => (.done (.elements []), [])
  | .pollMany (n + 1) => (.more (.popMany .readHead n []), [])
  | .removeFirst => (.more (.pop .readHead fun a => .result (emptyOr a)), [])
  | .take flag => (.more (.take .start .readHead flag), [])
  | .pollTimeout timeout flag =>
    (.more (.pollTimeout .start .readHead flag (TimedPoll.deadline? latest s.now timeout.total)), [])
  | .peek => (.more (.walk .copy (.start init) (copyReply .element)), [])
  | .element => (.more (.walk .copy (.start init) (copyReply fun a => .result (emptyOr a))), [])
  | .len => (.done (.count s.chain.length), [])
  | .isEmpty => (.done (.yes s.chain.isEmpty), [])
  | .toList => (.more (.collect (.start init) []), [])
  | .contains a =>
    (.more (.walk (.find (plain (· == a))) (.start init) fun w =>
      match foundOf w with | .ok b => .yes b | .error f => .fault f), [])
  | .containsAll [] => (.done (.yes true), [])
  | .containsAll (a :: as) => (.more (.containsAll a (.start init) as), [])
  | .removeItem a => (.more (.walk (.remove (plain (· == a)) (some 1)) (.start init) anyRemoved), [])
  | .removeAll as => (.more (.walk (.remove (plain (among as)) none) (.start init) anyRemoved), [])
  | .retainAll as => (.more (.walk (.remove (plain fun x => !among as x) none) (.start init) anyRemoved), [])
  | .retain keep =>
    (.more (.walk (.remove (negated keep) none) (.start init) fun w =>
      .retained ((removedOf w).map (0 < ·)) w.state), [])
  | .clear =>
    (.more (.walk (.remove (plain fun _ => true) none) (.start init) fun w =>
      match removedOf w with | .ok _ => .done | .error f => .fault f), [])
  | .drainTo sink => (.done (.drained 0 sink), [.line .drainIgnored])
  | .drainToMax sink _ => (.done (.drainedMax (.error (.unsupported "drain_to_max")) sink), [])
  | .next cursor none =>
    (.more (.walk .copy (.resume cursor init) fun w =>
      match w.outcome with
      | .copied a => .stepped (.inl a) w.cursor
      | .broke f => .fault f
      | _ => .fault .absent), [])
  | .next cursor (some 0) => (.done (.stepped (.inr []) cursor), [])
  | .next cursor (some (n + 1)) => (.more (.next (.resume cursor init) n []), [])
  | .any ask => (.more (.walk (.find ask) (.start init) fun w => .found (foundOf w) w.state), [])
  | .removeWhere ask limit =>
    (.more (.walk (.remove ask limit) (.start init) fun w => .removed (removedOf w) w.state), [])

/-- One access of a job. -/
def step (s : Shared α) : Job σ α → Shared α × Progress (Job σ α) (Reply σ α) × List Note
  | .push p rest reply =>
    match s.onChain fun c => p.step c, rest with
    | (s, .more p), _ => (s, .more (.push p rest reply), [])
    | (s, .done ()), a :: rest => (s, .more (.push (.readTail a) rest reply), [])
    | (s, .done ()), [] => (s, .done reply, [])
  | .pop p reply =>
    match s.onChain fun c => p.step c with
    | (s, .more p) => (s, .more (.pop p reply), [])
    | (s, .done (.ok a)) => (s, .done (reply a), [])
    | (s, .done (.error f)) => (s, .done (.fault f), [])
  | .popMany p left got =>
    match s.onChain fun c => p.step c, left with
    | (s, .more p), _ => (s, .more (.popMany p left got), [])
    | (s, .done (.error f)), _ => (s, .done (.fault f), [])
    | (s, .done (.ok a)), 0 => (s, .done (.elements (got ++ [a])), [])
    | (s, .done (.ok a)), left + 1 => (s, .more (.popMany .readHead left (got ++ [a])), [])
  | .walk aim w reply =>
    match s.onChain fun c => w.step aim c with
    | (s, .more w) => (s, .more (.walk aim w reply), [])
    | (s, .done w) => (s, .done (reply w), [])
  | .next w left got =>
    match s.onChain fun c => w.step .copy c, left with
    | (s, .more w), _ => (s, .more (.next w left got), [])
    | (s, .done ⟨cursor, _, .copied a⟩), 0 => (s, .done (.stepped (.inr (got ++ [a])) cursor), [])
    | (s, .done ⟨cursor, state, .copied a⟩), left + 1 =>
      (s, .more (.next (.resume cursor state) left (got ++ [a])), [])
    | (s, .done w), _ => (s, .done (copyReply .element w), [])
  | .collect w got =>
    match s.onChain fun c => w.step .copy c with
    | (s, .more w) => (s, .more (.collect w got), [])
    | (s, .done ⟨cursor, state, .copied (some a)⟩) =>
      (s, .more (.collect (.resume cursor state) (got ++ [a])), [])
    | (s, .done ⟨_, _, .copied none⟩) => (s, .done (.all got), [])
    | (s, .done w) => (s, .done (copyReply .element w), [])
  | .containsAll item w rest =>
    match s.onChain fun c => w.step (.find (plain (· == item))) c, rest with
    | (s, .more w), _ => (s, .more (.containsAll item w rest), [])
    | (s, .done ⟨_, state, .found true⟩), a :: rest => (s, .more (.containsAll a (.start state) rest), [])
    | (s, .done ⟨_, _, .found b⟩), _ => (s, .done (.yes b), [])
    | (s, .done w), _ => (s, .done (copyReply .element w), [])
  | .take t p flag =>
    match t with
    | .attempt _ =>
      match s.onChain fun c => p.step c with
      | (s, .more p) => (s, .more (.take t p flag), [])
      | (s, .done (.error f)) => (s, .done (.fault f), [])
      | (s, .done (.ok a)) =>
        let (q, ns) := t.step { s.view flag with found := a }
        (s, q.map (.take · .readHead flag) .result, ns)
    | .look _ =>
      let (q, ns) := t.step (s.view flag)
      (s, q.map (.take · .readHead flag) .result, ns)
    | .lower _ =>
      let (q, ns) := t.step (s.view flag)
      (s.setFlag flag false, q.map (.take · .readHead flag) .result, ns)
  | .pollTimeout t p flag deadline =>
    match t with
    | .attempt _ =>
      match s.onChain fun c => p.step c with
      | (s, .more p) => (s, .more (.pollTimeout t p flag deadline), [])
      | (s, .done (.error f)) => (s, .done (.fault f), [])
      | (s, .done (.ok a)) =>
        let (q, ns) := t.step deadline { s.view flag with found := a }
        (s, q.map (.pollTimeout · .readHead flag deadline) .timed, ns)
    | .look _ | .clock _ =>
      let (q, ns) := t.step deadline (s.view flag)
      (s, q.map (.pollTimeout · .readHead flag deadline) .timed, ns)
    | .lower _ =>
      let (q, ns) := t.step deadline (s.view flag)
      (s.setFlag flag false, q.map (.pollTimeout · .readHead flag deadline) .timed, ns)

end

/-- The job has claimed an element that somebody looks at. -/
def waits (s : Shared α) : Job σ α → Bool
  | .pop p _ | .popMany p _ _ | .take _ p _ | .pollTimeout _ p _ _ => p.waits s.chain
  | .walk _ w _ | .next w _ _ | .collect w _ | .containsAll _ w _ => w.waits s.chain
  | .push .. => false

/-- The job tries again and again, and would find nothing. -/
def idles (s : Shared α) : Job σ α → Bool
  | .take (.attempt _) p flag => p.idle s.chain && !s.raised flag
  | .pollTimeout (.attempt _) p flag deadline =>
    p.idle s.chain && !s.raised flag && !TimedPoll.isLate deadline s.now
  | _ => false

/-- The job can only wait. -/
def stuck (s : Shared α) (j : Job σ α) : Bool := j.waits s || j.idles s

/-- The element that the job is about to look at, if it may remove it. -/
def looksAt? (s : Shared α) : Job σ α → Option α
  | .walk _ w _ => w.looksAt? s.chain
  | _ => none

/-- The parts of a job that are still to be done. -/
def parts : Job σ α → Nat
  | .push _ rest _ | .containsAll _ _ rest => rest.length + 1
  | .popMany _ left _ | .next _ left _ => left + 1
  | _ => 1

/-- More accesses than a job makes alone, stuck or not. -/
def bound (s : Shared α) (j : Job σ α) : Nat := 16 * (s.chain.nodes.size + j.parts + 4) * j.parts

/-- A step that gathers notes. -/
def noted [BEq α] (s : Shared α × List Note) (j : Job σ α) :
    (Shared α × List Note) × Progress (Job σ α) (Reply σ α) :=
  match s with
  | (m, before) =>
    let (m, p, ns) := j.step m
    ((m, before ++ ns), p)

/-- The job with nobody else acting, until it ends, is stuck, or `pause` says so. -/
def run [BEq α] (pause : Shared α → Job σ α → Bool) (s : Shared α) (j : Job σ α) :
    (Shared α × List Note) × Progress (Job σ α) (Reply σ α) :=
  alone noted (fun s j => j.stuck s.1 || pause s.1 j) (j.bound s) (s, []) j

end Job

end BusyWait

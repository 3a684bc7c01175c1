import BusyWait.Queue.Job

/-
  BusyWait.Trial.Queues — producers, consumers and a remover at one queue.

  Producer `p` puts `n` numbers from `p * n` on; consumers poll until the producers are
  done and the queue is found empty; the remover removes the multiples of a number again
  and again until the producers are done. The threads take turns, one access each.
-/

namespace BusyWait.Trial.Queues

abbrev Work := Job Unit Nat

/-- A producer and what it still does, if anything. -/
abbrev Producer := Option Work

structure Consumer where
  work : Option Work
  /-- The elements taken, last first. -/
  taken : List Nat
  /-- The producers were done before this poll began. -/
  last : Bool

structure Remover where
  modulus : Nat
  work : Option Work

structure State where
  shared : Shared Nat
  producers : List Producer
  consumers : List Consumer
  remover : Option Remover

def begin (s : Shared Nat) (c : Call Unit Nat) : Option Work :=
  match (Job.start () s c).1 with
  | .more j => some j
  | .done _ => none

/-- One access, and the reply if it was the last. -/
def access (s : Shared Nat) (j : Work) : Shared Nat × Progress Work (Reply Unit Nat) :=
  let (s, p, _) := j.step s
  (s, p)

def Producer.turn (s : Shared Nat) : Producer → Shared Nat × Producer
  | none => (s, none)
  | some j =>
    match access s j with
    | (s, .more j) => (s, some j)
    | (s, .done _) => (s, none)

/-- A consumer's turn; `ended` says that the producers are done. -/
def Consumer.turn (ended : Bool) (s : Shared Nat) (k : Consumer) : Shared Nat × Consumer :=
  match k.work with
  | none => (s, k)
  | some j =>
    match access s j with
    | (s, .more j) => (s, { k with work := some j })
    | (s, .done (.element (some a))) => (s, ⟨some (.pop .readHead .element), a :: k.taken, ended⟩)
    | (s, .done _) =>
      (s, if k.last then { k with work := none } else ⟨some (.pop .readHead .element), k.taken, ended⟩)

def Remover.turn (ended : Bool) (s : Shared Nat) (r : Remover) : Shared Nat × Remover :=
  match r.work with
  | none => (s, r)
  | some j =>
    match access s j with
    | (s, .more j) => (s, { r with work := some j })
    | (s, .done _) =>
      if ended then (s, { r with work := none })
      else
        let again := begin s (.removeWhere (Job.plain fun x => x % r.modulus == 0) none)
        (s, { r with work := again })

/-- Everybody but the consumers is done. -/
def isProduced (s : State) : Bool :=
  s.producers.all Option.isNone && s.remover.all (·.work.isNone)

def isOver (s : State) : Bool := isProduced s && s.consumers.all (·.work.isNone)

/-- A turn of everybody. -/
def round : State → State
  | ⟨m, producers, consumers, remover⟩ =>
    let ended := producers.all Option.isNone
    let allEnded := ended && remover.all (·.work.isNone)
    let (m, producers) := producers.foldl
      (fun (m, done) p => let (m, p) := p.turn m; (m, p :: done)) (m, [])
    let (m, consumers) := consumers.foldl
      (fun (m, done) k => let (m, k) := k.turn allEnded m; (m, k :: done)) (m, [])
    match remover with
    | none => ⟨m, producers.reverse, consumers.reverse, none⟩
    | some r =>
      let (m, r) := r.turn ended m
      ⟨m, producers.reverse, consumers.reverse, some r⟩

def rounds : Nat → State → State
  | 0, s => s
  | fuel + 1, s => if isOver s then s else rounds fuel (round s)

/-- The elements of one producer among those taken, in order. -/
def ofProducer (each p : Nat) (taken : List Nat) : List Nat := taken.filter fun a => a / each == p

def isIncreasing : List Nat → Bool
  | a :: b :: rest => a < b && isIncreasing (b :: rest)
  | _ => true

def hasDuplicate : List Nat → Bool
  | a :: b :: rest => a == b || hasDuplicate (b :: rest)
  | _ => false

structure Answer where
  keptTaken : Nat
  keptSum : Nat
  produced : Nat
  unique : Bool
  /-- Each consumer took each producer's elements in the order in which they were put. -/
  inOrder : Bool
  empty : Bool
  /-- The elements still there after the queue was dropped. -/
  left : Nat

def run (producers each consumers : Nat) (modulus : Option Nat) : Answer :=
  let m : Shared Nat := .empty
  let producer (p : Nat) : Producer := begin m (.addAll ((List.range each).map (p * each + ·)))
  let remover (k : Nat) : Remover := ⟨k, begin m (.removeWhere (Job.plain fun x => x % k == 0) none)⟩
  let s : State :=
    ⟨m, (List.range producers).map producer,
      List.replicate consumers ⟨begin m .poll, [], false⟩, modulus.map remover⟩
  let s := rounds (64 * (producers * each + 16) * (producers + consumers + 4)) s
  let taken := (s.consumers.map (·.taken.reverse)).flatten
  let kept := match modulus with
    | none => taken
    | some k => taken.filter fun a => a % k != 0
  { keptTaken := kept.length
    keptSum := kept.foldl (· + ·) 0
    produced := producers * each
    unique := !hasDuplicate (taken.mergeSort)
    inOrder := s.consumers.all fun k =>
      (List.range producers).all fun p => isIncreasing (ofProducer each p k.taken.reverse)
    empty := s.shared.chain.isEmpty
    left := s.shared.chain.drop.stored }

end BusyWait.Trial.Queues

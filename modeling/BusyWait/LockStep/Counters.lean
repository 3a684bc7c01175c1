import BusyWait.LockStep.Team

/-
  BusyWait.LockStep.Counters — a run of threads that record.
-/

namespace BusyWait.LockStep.Counters

/-- A counter by name. -/
inductive Name where
  | size (n : SizeName)
  | event (n : EventName)
  deriving DecidableEq, Repr

def Name.ofText? (s : String) : Option Name :=
  ((SizeName.ofText? s).map Name.size).or ((EventName.ofText? s).map Name.event)

inductive Op where
  /-- The sample `n` times. -/
  | size (name : SizeName) (size : UInt32) (n : Nat)
  | event (name : EventName) (n : Nat)
  | flush
  | get
  | debug
  | debugOne (name : Name)
  | print
  | exit
  | unknown
  deriving DecidableEq, Repr

inductive Reply where
  | done
  | flag (b : Bool)
  | stats (s : Stats)
  | text (s : String)
  | refused (r : Refusal)

def perform (m : Team) (t : Thread) : Op → Team × Reply
  | .size name size n => (n.repeat (·.note t [.sample name size]) m, .done)
  | .event name n => (n.repeat (·.note t [.event name]) m, .done)
  | .flush => ((m.tally t .flush).1, .done)
  | .get => (m, .stats m.book.global)
  | .debug => (m, .text m.book.global.shape.line)
  | .debugOne (.size n) => (m, .text (m.book.global.size n).shape.line)
  | .debugOne (.event n) => (m, .text (m.book.global.event n).shape.line)
  | .print => (m, .text m.book.global.summary)
  | .exit => let (m, b) := m.exit t; (m, .flag b)
  | .unknown => (m, .refused .unknown)

def step (m : Team) (t : Thread) (op : Op) : Team × Reply :=
  perform (if op = .exit then m else m.join t) t op

def run (m : Team) : List (Thread × Op) → List Reply
  | [] => []
  | (t, op) :: ops =>
    let (m, r) := step m t op
    r :: run m ops

end BusyWait.LockStep.Counters

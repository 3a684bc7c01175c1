import BusyWait.LockStep.Element
import BusyWait.LockStep.Team
import BusyWait.Queue.Job
import BusyWait.Text.Pad

/-
  BusyWait.LockStep.Chains — a run of operations on a bare chain, on one thread.
-/

namespace BusyWait.LockStep.Chains

open Text

inductive Op where
  | push (es : List Element)
  | pop
  | first
  | any (r : Rule)
  | removeWhere (r : Rule) (limit : Option Nat)
  | debug (f : Field)
  | unknown

inductive Reply where
  | done
  | element (e : Option Element)
  | text (s : String)
  | found (b : Except Fault Bool) (visited : List Element)
  | removed (n : Except Fault Nat) (visited : List Element)
  | fault (f : Fault)
  | refused (r : Refusal)

structure Report where
  reply : Reply
  len : Nat
  empty : Bool
  items : List Element
  live : Nat

def shown : String := "List \x7b .. \x7d"

/-- A call that runs alone, and its reply. -/
def call (s : Shared Element) (c : Call Seen Element) : Shared Element × Option (BusyWait.Reply Seen Element) :=
  match (Job.start [] s c).1 with
  | .done r => (s, some r)
  | .more j =>
    let ((s, _), p) := j.run (fun _ _ => false) s
    (s, p.result?)

def reply : Option (BusyWait.Reply Seen Element) → Reply
  | some (.element e) => .element e
  | some (.found b seen) => .found b seen.reverse
  | some (.removed n seen) => .removed n seen.reverse
  | some (.fault f) => .fault f
  | some _ => .done
  | none => .refused .wouldHang

def perform (s : Shared Element) : Op → Shared Element × Reply
  | .push es => let (s, _) := call s (.addAll es); (s, .done)
  | .pop => let (s, r) := call s .poll; (s, reply r)
  | .first => let (s, r) := call s .peek; (s, reply r)
  | .any r => let (s, r) := call s (.any r.ask); (s, reply r)
  | .removeWhere r limit => let (s, r) := call s (.removeWhere r.ask limit); (s, reply r)
  | .debug f => (s, .text (f.show shown))
  | .unknown => (s, .refused .unknown)

def runAll (s : Shared Element) : List Op → Shared Element × List Report
  | [] => (s, [])
  | op :: ops =>
    let (s, r) := perform s op
    let report : Report := ⟨r, s.chain.length, s.chain.isEmpty, s.chain.toList, s.chain.stored⟩
    let (s, rs) := runAll s ops
    (s, report :: rs)

/-- The reports, and the elements still there after the chain was dropped. -/
def run (ops : List Op) : List Report × Nat :=
  let (s, rs) := runAll .empty ops
  (rs, s.chain.drop.stored)

end BusyWait.LockStep.Chains

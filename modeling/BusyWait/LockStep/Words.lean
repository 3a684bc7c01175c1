import BusyWait.Lock.Retry
import BusyWait.LockStep.Team

/-
  BusyWait.LockStep.Words — a run of operations on one word.
-/

namespace BusyWait.LockStep.Words

inductive Op where
  | enter
  /-- Tells also what each failed swap was told. -/
  | enterWatched
  | leave
  | unblock
  | request
  | claim
  | drain
  | block
  | debug
  | unknown
  deriving DecidableEq, Repr

inductive Reply where
  | done
  | flag (b : Bool)
  | attempt (entered : Bool) (contended : List UInt32)
  | count (n : UInt32)
  | session (failures yields : UInt32)
  | shape (s : Text.Shape)
  | fault (f : Fault)
  | refused (r : Refusal)

/-- A step of a reader that also lists its failed swaps. -/
def watched (s : Word × List UInt32) (e : Entry) : (Word × List UInt32) × Progress Entry (Except Fault Bool) :=
  let (w, p) := e.step s.1
  ((w, s.2 ++ (e.contended s.1).toList), p)

/-- Alone, a reader is in or out after two accesses, and so is a writer's request. -/
def solitary : Nat := 3

def attempt (w : Word) : (Word × List UInt32) × Progress Entry (Except Fault Bool) :=
  alone watched (fun _ _ => false) solitary (w, []) .look

/-- The reply to an operation that came to an end, or can only wait. -/
def conclude {τ ρ : Type} (reply : ρ → Reply) : Word × Progress τ (Except Fault ρ) → Word × Reply
  | (w, .done (.ok r)) => (w, reply r)
  | (w, .done (.error f)) => (w, .fault f)
  | (w, .more _) => (w, .refused .wouldHang)

def step (w : Word) : Op → Word × Reply
  | .enter =>
    let r := attempt w
    conclude .flag (r.1.1, r.2)
  | .enterWatched =>
    let r := attempt w
    conclude (.attempt · r.1.2) (r.1.1, r.2)
  | .leave => (w.release.1, match w.release.2 with | .ok () => .done | .error f => .fault f)
  | .unblock => (w.unblock.1, match w.unblock.2 with | .ok () => .done | .error f => .fault f)
  | .request => conclude .count (alone Request.step (fun _ _ => false) solitary w .look)
  | .claim => (w.claim.1, .flag w.claim.2)
  | .drain => conclude .count (alone Drain.step Drain.waits solitary w ⟨0⟩)
  | .block =>
    if w.raise = .owned then
      conclude (fun r => .session r.1 r.2) (alone Session.step Session.waits (solitary + solitary) w .start)
    else (w, .refused .wouldHang)
  | .debug => (w, .shape w.shape)
  | .unknown => (w, .refused .unknown)

/-- The replies, and the word after each. -/
def run (w : Word) : List Op → List (Reply × Word)
  | [] => []
  | op :: ops =>
    let (w, r) := step w op
    (r, w) :: run w ops

end BusyWait.LockStep.Words

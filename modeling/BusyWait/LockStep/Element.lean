import BusyWait.Queue.Walk

/-
  BusyWait.LockStep.Element — the elements that a run puts into a queue, and questions.

  Elements are compared by kind and value, floating-point numbers as such (`nan` equals
  nothing, the two zeros are equal), and keyed elements by their key alone. So `==` is
  not reflexive, and equal elements need not be the same.
-/

namespace BusyWait.LockStep

/-- The floating-point numbers that a run uses. -/
inductive Floating where
  | nan
  | inf
  | minusInf
  | zero
  | minusZero
  | one
  | oneAndHalf
  | minusTwoAndQuarter
  deriving DecidableEq, Repr

namespace Floating

def all : List Floating := [.nan, .inf, .minusInf, .zero, .minusZero, .one, .oneAndHalf, .minusTwoAndQuarter]

def text : Floating → String
  | .nan => "nan"
  | .inf => "inf"
  | .minusInf => "-inf"
  | .zero => "0.0"
  | .minusZero => "-0.0"
  | .one => "1.0"
  | .oneAndHalf => "1.5"
  | .minusTwoAndQuarter => "-2.25"

def ofText? (s : String) : Option Floating := all.find? (·.text == s)

/-- Equality of floating-point numbers. -/
def same : Floating → Floating → Bool
  | .nan, _ | _, .nan => false
  | .zero, .minusZero | .minusZero, .zero => true
  | a, b => decide (a = b)

theorem same_comm (a b : Floating) : a.same b = b.same a := by
  cases a <;> cases b <;> rfl

end Floating

inductive Element where
  | null
  | bool (b : Bool)
  | int (n : Int)
  | string (s : String)
  | array (es : List Element)
  | float (x : Floating)
  | keyed (key : Int) (tag : String)
  deriving Repr, Inhabited

namespace Element

mutual

def same : Element → Element → Bool
  | .null, .null => true
  | .bool a, .bool b => a == b
  | .int a, .int b => a == b
  | .string a, .string b => a == b
  | .array a, .array b => sameAll a b
  | .float a, .float b => a.same b
  | .keyed a _, .keyed b _ => a == b
  | _, _ => false

def sameAll : List Element → List Element → Bool
  | [], [] => true
  | a :: as, b :: bs => a.same b && sameAll as bs
  | _, _ => false

end

instance : BEq Element := ⟨same⟩

end Element

/-- A question about elements; some depend on how many were asked about before. -/
inductive Rule where
  | const (b : Bool)
  | among (set : List Element)
  /-- An integer with this remainder, which is not negative. -/
  | residue (modulus remainder : Int)
  /-- An integer below this one. -/
  | below (n : Int)
  /-- The answers in turn, again and again. -/
  | pattern (answers : List Bool)
  /-- Breaks off at this element, counted from zero. -/
  | breakAt (i : Nat) (otherwise : Bool)
  deriving Repr

/-- The remainder of a 64-bit division, which is not negative. -/
def remainder (n m : Int) : Except Fault Int :=
  if m = 0 then .error .zeroDivisor
  else if n = -0x8000000000000000 ∧ m = -1 then .error .remainderOverflow
  else .ok (n % m)

/-- The answer about an element after so many others. -/
def Rule.answer (r : Rule) (before : Nat) (e : Element) : Except Fault Bool :=
  match r, e with
  | .const b, _ => .ok b
  | .among set, e => .ok (set.any (· == e))
  | .residue m k, .int n => (remainder n m).map (· == k)
  | .residue _ _, _ => .ok false
  | .below k, .int n => .ok (n < k)
  | .below _, _ => .ok false
  | .pattern [], _ => .error .zeroDivisor
  | .pattern (b :: bs), _ => .ok ((b :: bs)[before % (bs.length + 1)]?.getD b)
  | .breakAt i b, _ => if before = i then .error .predicate else .ok b

/-- The elements that a question was asked about, last first. -/
abbrev Seen := List Element

/-- A rule that remembers what it was asked about. -/
def Rule.ask (r : Rule) : Ask Seen Element := fun seen e => (e :: seen, r.answer seen.length e)

/-- Stays with the first element equal to `target`, and in the end keeps it or not; keeps all others. -/
def holdAsk (target : Element) (keep : Bool) : Ask Seen Element := fun seen e =>
  (e :: seen, .ok (if e == target && !seen.any (· == target) then keep else true))

end BusyWait.LockStep

import BusyWait.Decimal.Binary64

/-
  BusyWait.Decimal.Places — a fixed number of digits after the point.

  The exact value is rounded, and a half goes to the even neighbour.
-/

namespace BusyWait.Decimal

/-- `n` in exactly `k` digits, or more if it has more. -/
def padded (k n : Nat) : String :=
  let ds := toString n
  String.ofList (List.replicate (k - ds.length) '0') ++ ds

/-- `n` units of `10 ^ -k`. -/
def pointed (k n : Nat) : String := toString (n / Nat.pow 10 k) ++ "." ++ padded k (n % Nat.pow 10 k)

def Binary64.places (k : Nat) (b : Binary64) : String :=
  let s := scale b.mant 1 b.exp
  pointed k (nearest (s.1 * Nat.pow 10 k) s.2)

def Ratio.places (k : Nat) : Ratio → String
  | .undefined => "NaN"
  | .infinite => "inf"
  | .zero => pointed k 0
  | .positive b => b.places k

end BusyWait.Decimal

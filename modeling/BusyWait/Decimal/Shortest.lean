import BusyWait.Decimal.Binary64

/-
  BusyWait.Decimal.Shortest — the fewest decimal digits that read back.

  The numbers that round to `mant * 2 ^ exp` form an interval, which has its ends if
  `mant` is even. On the grid of `k` digits only the two neighbours of the number can
  lie in it. The first `k` with a hit wins, of two hits the nearer, of two as near the
  larger. Numbers from 0.0001 to below 10^16 are written positionally, with at least
  one digit after the point; the others with an exponent.
-/

namespace BusyWait.Decimal

def digitCount (n : Nat) : Nat := (toString n).length

/-- `n / d * 10 ^ e` as a numerator and a denominator. -/
def scaleTen (n d : Nat) (e : Int) : Nat × Nat := (n * Nat.pow 10 e.toNat, d * Nat.pow 10 (-e).toNat)

namespace Binary64

/-- The number of binary64 nearest to zero is above `10 ^ -smallest`. -/
def smallest : Nat := 330

/-- A quarter of the distance to the next larger number, as a fraction. -/
def quarter (b : Binary64) : Nat × Nat := scale 1 1 (b.exp - 2)

/-- The interval that rounds to `b`, in quarters. -/
def interval (b : Binary64) : Nat × Nat :=
  (if b.mant = Nat.pow 2 (significantBits - 1) then 4 * b.mant - 1 else 4 * b.mant - 2, 4 * b.mant + 2)

/-- The `p` with `10 ^ (p - 1) ≤ b < 10 ^ p`. -/
def point (b : Binary64) : Int :=
  let q := b.quarter
  (digitCount (4 * b.mant * q.1 * Nat.pow 10 smallest / q.2) : Int) - smallest

/-- `b` on the grid of `k` digits, if a number there reads back as `b`. -/
def onGrid (b : Binary64) (k : Nat) : Option Nat :=
  let q := b.quarter
  let s := scaleTen q.1 q.2 (k - b.point)
  let at' (quarters : Nat) := quarters * s.1
  let inside (c : Nat) : Bool :=
    if b.mant % 2 = 0 then at' b.interval.1 ≤ c * s.2 && c * s.2 ≤ at' b.interval.2
    else at' b.interval.1 < c * s.2 && c * s.2 < at' b.interval.2
  let low := at' (4 * b.mant) / s.2
  let below := at' (4 * b.mant) - low * s.2
  let above := (low + 1) * s.2 - at' (4 * b.mant)
  match inside low, inside (low + 1) with
  | true, true => some (if below < above then low else low + 1)
  | true, false => some low
  | false, true => some (low + 1)
  | false, false => none

/-- The shortest digits, and the power of ten of the last of them; 17 are always enough. -/
def shortest (b : Binary64) : Nat × Int :=
  (((List.range 17).map (· + 1)).findSome? fun k => (b.onGrid k).map (·, b.point - k)).getD (0, 0)

end Binary64

/-- The digits of `n` without the zeros at their end. -/
def trimmed (n : Nat) : List Char :=
  ((toString n).toList.reverse.dropWhile (· == '0')).reverse

def zeros (n : Nat) : List Char := List.replicate n '0'

/-- `0.ds * 10 ^ p` with a point and at least one digit on both sides of it. -/
def positional (ds : List Char) (p : Int) : String :=
  if p ≤ 0 then String.ofList (['0', '.'] ++ zeros (-p).toNat ++ ds)
  else
    let whole := ds.take p.toNat ++ zeros (p.toNat - ds.length)
    let rest := ds.drop p.toNat
    String.ofList (whole ++ ['.'] ++ if rest.isEmpty then ['0'] else rest)

/-- `0.ds * 10 ^ p` with one digit before the point and an exponent. -/
def exponential (ds : List Char) (p : Int) : String :=
  let rest := ds.drop 1
  String.ofList (ds.take 1 ++ if rest.isEmpty then [] else '.' :: rest) ++ "e" ++ toString (p - 1)

/-- The exponents written positionally: from `0.0001` to below `10 ^ 16`. -/
def isPlain (p : Int) : Bool := -3 ≤ p && p ≤ 16

def Binary64.text (b : Binary64) : String :=
  let (n, e) := b.shortest
  let p := e + digitCount n
  let ds := trimmed n
  if isPlain b.point then positional ds p else exponential ds p

def Ratio.text : Ratio → String
  | .undefined => "NaN"
  | .infinite => "inf"
  | .zero => "0.0"
  | .positive b => b.text

end BusyWait.Decimal

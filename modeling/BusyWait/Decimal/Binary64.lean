/-
  BusyWait.Decimal.Binary64 — quotients of counters in 53 significant bits.

  A counter becomes the nearest number of the form `mant * 2 ^ exp` with `mant` of 53
  bits, and so does the quotient of two of them; a tie goes to the even `mant`. Counters
  are below 2^64, so no quotient leaves the range of normal numbers.
-/

namespace BusyWait.Decimal

/-- The natural number nearest to `n / d`; a half goes to the even neighbour. -/
def nearest (n d : Nat) : Nat :=
  if 2 * (n % d) < d then n / d
  else if d < 2 * (n % d) then n / d + 1
  else n / d + n / d % 2

theorem nearest_mul_self (n d : Nat) (hd : 0 < d) : nearest (n * d) d = n := by
  simp [nearest, hd]

theorem nearest_le (n d : Nat) : nearest n d ≤ n / d + 1 := by
  unfold nearest
  split
  · omega
  · split <;> omega

theorem le_nearest (n d : Nat) : n / d ≤ nearest n d := by
  unfold nearest
  split
  · omega
  · split <;> omega

/-- The positive number `mant * 2 ^ exp`. -/
structure Binary64 where
  mant : Nat
  exp : Int
  deriving DecidableEq, Repr

/-- The bits of `mant`. -/
def significantBits : Nat := 53

/-- `n / d * 2 ^ e` as a numerator and a denominator. -/
def scale (n d : Nat) (e : Int) : Nat × Nat := (n * Nat.pow 2 e.toNat, d * Nat.pow 2 (-e).toNat)

/-- `n / d` in 53 bits, for positive `n` and `d`. -/
def Binary64.ofFraction (n d : Nat) : Binary64 :=
  let e : Int := (significantBits - 1 : Nat) - (n.log2 : Int) + d.log2
  let s := scale n d e
  -- the quotient of the logarithms is one too large if the leading bits of `d` exceed those of `n`
  let e := if s.1 / s.2 < Nat.pow 2 (significantBits - 1) then e + 1 else e
  let s := scale n d e
  let m := nearest s.1 s.2
  if m = Nat.pow 2 significantBits then ⟨Nat.pow 2 (significantBits - 1), 1 - e⟩ else ⟨m, -e⟩

def Binary64.ofNat (n : Nat) : Binary64 := .ofFraction n 1

def Binary64.div (a b : Binary64) : Binary64 :=
  let s := scale a.mant b.mant (a.exp - b.exp)
  .ofFraction s.1 s.2

/-- What dividing one counter by another gives. -/
inductive Ratio where
  /-- Nothing divided by nothing. -/
  | undefined
  | infinite
  | zero
  | positive (b : Binary64)
  deriving DecidableEq, Repr

def Ratio.of (n d : Nat) : Ratio :=
  match n, d with
  | 0, 0 => .undefined
  | _, 0 => .infinite
  | 0, _ => .zero
  | n, d => .positive (.div (.ofNat n) (.ofNat d))

end BusyWait.Decimal

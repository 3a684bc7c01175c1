import BusyWait.Text.Shape

/-
  BusyWait.Duration — lengths of time to the nanosecond.

  A length is shown in its largest unit with a nonzero whole part, with the exact
  fraction and no zeros at its end.
-/

namespace BusyWait

structure Duration where
  secs : UInt64
  /-- Below a second. -/
  nanos : UInt32
  deriving DecidableEq, Repr

namespace Duration

def ofMillis (ms : UInt32) : Duration := ⟨(ms / 1000).toUInt64, ms % 1000 * 1000000⟩

/-- The length in nanoseconds. -/
def total (d : Duration) : Nat := d.secs.toNat * 1000000000 + d.nanos.toNat

/-- `whole` and the fraction `part / 10 ^ k` of a unit, with no zeros at the end. -/
def inUnit (whole part k : Nat) (unit : String) : String :=
  let ds := (toString (Nat.pow 10 k + part)).toList.drop 1
  let ds := (ds.reverse.dropWhile (· == '0')).reverse
  toString whole ++ (if ds.isEmpty then "" else "." ++ String.ofList ds) ++ unit

def text (d : Duration) : String :=
  let n := d.nanos.toNat
  if d.secs ≠ 0 then inUnit d.secs.toNat n 9 "s"
  else if 1000000 ≤ n then inUnit (n / 1000000) (n % 1000000) 6 "ms"
  else if 1000 ≤ n then inUnit (n / 1000) (n % 1000) 3 "µs"
  else inUnit n 0 0 "ns"

def shape (d : Duration) : Text.Shape := .word d.text

end Duration

end BusyWait

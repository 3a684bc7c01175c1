import BusyWait.Note

/-
  BusyWait.Policy — what to do after a failed attempt.

  The first `spinCount` attempts spin, longer each time; the next `yieldCount` give up
  the time slice; all later ones sleep. Products and sums stop at the largest 32-bit
  number. The attempt that first sleeps is logged.
-/

namespace BusyWait

/-- Addition that stops at the largest number. -/
def satAdd (a b : UInt32) : UInt32 := if a.toNat + b.toNat < 0x100000000 then a + b else 0xFFFFFFFF

/-- Multiplication that stops at the largest number. -/
def satMul (a b : UInt32) : UInt32 := if a.toNat * b.toNat < 0x100000000 then a * b else 0xFFFFFFFF

theorem toNat_satAdd (a b : UInt32) : (satAdd a b).toNat = min (a.toNat + b.toNat) (0xFFFFFFFF) := by
  unfold satAdd
  split
  · rw [UInt32.toNat_add]; omega
  · have : (0xFFFFFFFF : UInt32).toNat = 0xFFFFFFFF := by decide
    omega

theorem toNat_satMul (a b : UInt32) : (satMul a b).toNat = min (a.toNat * b.toNat) (0xFFFFFFFF) := by
  unfold satMul
  split
  · rw [UInt32.toNat_mul]; omega
  · have : (0xFFFFFFFF : UInt32).toNat = 0xFFFFFFFF := by decide
    omega

structure Policy where
  spinCycles : UInt32
  spinCount : UInt32
  yieldCount : UInt32
  sleep : Duration
  deriving DecidableEq, Repr

namespace Policy

def standard : Policy := ⟨20, 10, 5, .ofMillis 1⟩

/-- One change of a policy under construction. -/
inductive Setting where
  | spinCycles (n : UInt32)
  | spinCount (n : UInt32)
  | yieldCount (n : UInt32)
  | sleep (d : Duration)
  /-- Start over. -/
  | standard
  deriving DecidableEq, Repr

def set (p : Policy) : Setting → Policy
  | .spinCycles n => { p with spinCycles := n }
  | .spinCount n => { p with spinCount := n }
  | .yieldCount n => { p with yieldCount := n }
  | .sleep d => { p with sleep := d }
  | .standard => .standard

def build (changes : List Setting) : Policy := changes.foldl set .standard

/-- The first attempt that sleeps. -/
def patience (p : Policy) : UInt32 := satAdd p.spinCount p.yieldCount

def tier (p : Policy) (attempt : UInt32) : Tier :=
  if attempt < p.spinCount then .spin (satMul p.spinCycles (attempt + 1))
  else if attempt < p.patience then .yield
  else .sleep p.sleep

/-- What a wait for `attempt` leaves behind: it is counted, logged where it is the first to sleep, and then made. -/
def wait (p : Policy) (attempt : UInt32) : List Note :=
  match p.tier attempt with
  | .sleep d =>
    .event (Tier.sleep d).event ::
      ((if attempt = p.patience then [.line (.escalated attempt)] else []) ++ [.waited (.sleep d)])
  | t => [.event t.event, .waited t]

def shape (p : Policy) : Text.Shape :=
  .record "BackoffPolicy"
    [("spin_cycles", .nat p.spinCycles.toNat), ("spin_count", .nat p.spinCount.toNat),
      ("yield_count", .nat p.yieldCount.toNat), ("sleep", p.sleep.shape)]

end Policy

end BusyWait

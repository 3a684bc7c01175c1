import BusyWait.Stats.Summary
import Mathlib.Algebra.Order.Field.Power
import Mathlib.Data.Rat.Cast.Order
import Mathlib.Tactic.Linarith
import Mathlib.Tactic.Positivity
import Mathlib.Tactic.Ring

/-
  BusyWait.Proofs.Decimal.Share — a share is not written as more than the whole.

  Both counters are rounded to 53 bits, and so is their quotient, and that to the digits
  that are written. Each rounding keeps the order (`rounded_mono`) and 1 as it is
  (`value_ofFraction_le_one`).

  - `Stats.share_of_le`: a part of something is written as at most 1, a part of nothing
    as no number.
-/

namespace BusyWait.Decimal

theorem nearest_le_of_le {n d m : Nat} (hd : 0 < d) (h : n ≤ m * d) : nearest n d ≤ m := by
  rcases Nat.lt_or_eq_of_le h with hlt | rfl
  · have := (Nat.div_lt_iff_lt_mul hd).mpr hlt
    exact Nat.le_trans (nearest_le n d) this
  · rw [nearest_mul_self m d hd]

theorem nearest_mono {n m : Nat} (d : Nat) (h : n ≤ m) : nearest n d ≤ nearest m d := by
  rcases Nat.lt_or_eq_of_le (Nat.div_le_div_right h : n / d ≤ m / d) with hlt | heq
  · exact Nat.le_trans (nearest_le n d) (Nat.le_trans hlt (le_nearest m d))
  · have hn := Nat.div_add_mod n d
    have hm := Nat.div_add_mod m d
    rw [heq] at hn
    unfold nearest
    rw [heq]
    split_ifs
    all_goals omega

theorem nearest_one (n : Nat) : nearest n 1 = n := by
  have := nearest_mul_self n 1 Nat.one_pos
  rwa [Nat.mul_one] at this

/-! ## Values -/

/-- The number that it is. -/
def Binary64.value (b : Binary64) : ℚ := b.mant * 2 ^ b.exp

theorem two_zpow_toNat (e : Int) : (2 : ℚ) ^ e.toNat = 2 ^ e * 2 ^ (-e).toNat := by
  rw [← zpow_natCast, ← zpow_natCast, ← zpow_add₀ two_ne_zero]
  congr 1
  omega

theorem scale_pos {d : Nat} (hd : 0 < d) (n : Nat) (e : Int) : 0 < (scale n d e).2 :=
  Nat.mul_pos hd (Nat.pow_pos Nat.two_pos)

/-- The fraction `n / d * 2 ^ e` is proper if it is at most 1. -/
theorem scale_le_iff (n d : Nat) (e : Int) : (scale n d e).1 ≤ (scale n d e).2 ↔ (n : ℚ) * 2 ^ e ≤ d := by
  have hpos : (0 : ℚ) < 2 ^ (-e).toNat := by positivity
  rw [← Nat.cast_le (α := ℚ)]
  simp only [scale, Nat.pow_eq, Nat.cast_mul, Nat.cast_pow, Nat.cast_ofNat]
  rw [two_zpow_toNat, ← mul_assoc]
  exact mul_le_mul_iff_of_pos_right hpos

/-- The exponent at which a fraction has 53 bits before the point. -/
def lift (n d : Nat) : Int :=
  let e : Int := (significantBits - 1 : Nat) - (n.log2 : Int) + d.log2
  if (scale n d e).1 / (scale n d e).2 < Nat.pow 2 (significantBits - 1) then e + 1 else e

theorem value_ofFraction (n d : Nat) : (Binary64.ofFraction n d).value =
    nearest (scale n d (lift n d)).1 (scale n d (lift n d)).2 * 2 ^ (-lift n d) := by
  have hfold : Binary64.ofFraction n d =
      if nearest (scale n d (lift n d)).1 (scale n d (lift n d)).2 = Nat.pow 2 significantBits then
        ⟨Nat.pow 2 (significantBits - 1), 1 - lift n d⟩
      else ⟨nearest (scale n d (lift n d)).1 (scale n d (lift n d)).2, -lift n d⟩ := rfl
  rw [hfold]
  split
  · rename_i h
    rw [h]
    show ((2 ^ 52 : Nat) : ℚ) * 2 ^ (1 - lift n d) = ((2 ^ 53 : Nat) : ℚ) * 2 ^ (-lift n d)
    rw [sub_eq_add_neg, zpow_add₀ two_ne_zero]
    norm_num
    ring
  · rfl

theorem log2_mono {n d : Nat} (h : n ≤ d) : n.log2 ≤ d.log2 := by
  by_cases hn : n = 0
  · rw [hn]
    exact Nat.zero_le _
  · exact (Nat.le_log2 (by omega)).mpr (Nat.le_trans (Nat.log2_self_le hn) h)

/-- What is at most 1 stays so. -/
theorem value_ofFraction_le_one {n d : Nat} (hd : 0 < d) (h : n ≤ d) : (Binary64.ofFraction n d).value ≤ 1 := by
  have hlog := log2_mono h
  have hlift : 0 ≤ lift n d := by
    unfold lift significantBits
    dsimp only
    split <;> omega
  have hnear : nearest (scale n d (lift n d)).1 (scale n d (lift n d)).2 ≤ 2 ^ (lift n d).toNat := by
    refine nearest_le_of_le (scale_pos hd n _) ?_
    show n * 2 ^ (lift n d).toNat ≤ 2 ^ (lift n d).toNat * (d * 2 ^ (-lift n d).toNat)
    rw [Int.toNat_of_nonpos (Int.neg_nonpos_of_nonneg hlift), Nat.pow_zero, Nat.mul_one, Nat.mul_comm]
    exact Nat.mul_le_mul_left _ h
  have hpow : (2 : ℚ) ^ (lift n d).toNat * 2 ^ (-lift n d) = 1 := by
    rw [← zpow_natCast, Int.toNat_of_nonneg hlift, ← zpow_add₀ two_ne_zero, Int.add_right_neg, zpow_zero]
  rw [value_ofFraction, ← hpow]
  refine mul_le_mul_of_nonneg_right ?_ (by positivity)
  exact_mod_cast hnear

/-! ## Counters as binary64 numbers -/

/-- A counter in 53 bits. -/
def rounded (n : Nat) : Nat := nearest n (2 ^ (n.log2 - 52)) * 2 ^ (n.log2 - 52)

theorem rounded_le (n : Nat) : rounded n ≤ 2 ^ (n.log2 + 1) := by
  have hsplit : 2 ^ (n.log2 + 1) = 2 ^ (n.log2 + 1 - (n.log2 - 52)) * 2 ^ (n.log2 - 52) := by
    rw [← Nat.pow_add]
    congr 1
    omega
  unfold rounded
  rw [hsplit]
  refine Nat.mul_le_mul_right _ (nearest_le_of_le (Nat.pow_pos Nat.two_pos) ?_)
  rw [← hsplit]
  exact Nat.le_of_lt Nat.lt_log2_self

theorem le_rounded {n : Nat} (hn : n ≠ 0) : 2 ^ n.log2 ≤ rounded n := by
  have hsplit : 2 ^ n.log2 = 2 ^ (n.log2 - (n.log2 - 52)) * 2 ^ (n.log2 - 52) := by
    rw [← Nat.pow_add]
    congr 1
    omega
  unfold rounded
  rw [hsplit]
  refine Nat.mul_le_mul_right _ (Nat.le_trans ?_ (le_nearest _ _))
  rw [Nat.le_div_iff_mul_le (Nat.pow_pos Nat.two_pos), ← hsplit]
  exact Nat.log2_self_le hn

theorem rounded_mono {n m : Nat} (h : n ≤ m) : rounded n ≤ rounded m := by
  rcases Nat.lt_or_eq_of_le (Nat.sub_le_sub_right (log2_mono h) 52) with hlt | heq
  · have hm : m ≠ 0 := by
      intro hm
      rw [hm] at hlt
      exact absurd hlt (Nat.not_lt_zero _)
    calc rounded n ≤ 2 ^ (n.log2 + 1) := rounded_le n
      _ ≤ 2 ^ m.log2 := Nat.pow_le_pow_right Nat.two_pos (by omega)
      _ ≤ rounded m := le_rounded hm
  · unfold rounded
    rw [heq]
    exact Nat.mul_le_mul_right _ (nearest_mono _ h)

theorem lift_one {n : Nat} (hn : n ≠ 0) : lift n 1 = 52 - n.log2 := by
  have hlog := Nat.log2_self_le hn
  have hone : Nat.log2 1 = 0 := by decide
  have he : ((significantBits - 1 : Nat) : Int) - n.log2 + (Nat.log2 1 : Nat) = 52 - n.log2 := by
    rw [hone]
    exact Int.add_zero _
  have hfit : ¬ (scale n 1 (52 - n.log2)).1 / (scale n 1 (52 - n.log2)).2 < Nat.pow 2 (significantBits - 1) := by
    rw [Nat.not_lt, Nat.le_div_iff_mul_le (scale_pos Nat.one_pos _ _)]
    show 2 ^ 52 * (1 * 2 ^ (-(52 - (n.log2 : Int))).toNat) ≤ n * 2 ^ (52 - (n.log2 : Int)).toNat
    have hsum : 52 + (-(52 - (n.log2 : Int))).toNat = n.log2 + (52 - (n.log2 : Int)).toNat := by omega
    rw [Nat.one_mul, ← Nat.pow_add, hsum, Nat.pow_add]
    exact Nat.mul_le_mul_right _ hlog
  unfold lift
  rw [he]
  exact if_neg hfit

theorem value_ofNat {n : Nat} (hn : n ≠ 0) : (Binary64.ofNat n).value = rounded n := by
  unfold Binary64.ofNat
  rw [value_ofFraction, lift_one hn]
  unfold rounded
  by_cases hlog : n.log2 ≤ 52
  · -- few bits are kept as they are
    have hnum : (scale n 1 (52 - n.log2)).1 = n * 2 ^ (52 - n.log2) := by
      show n * 2 ^ (52 - (n.log2 : Int)).toNat = _
      congr 2
      omega
    have hden : (scale n 1 (52 - n.log2)).2 = 1 := by
      show 1 * 2 ^ (-(52 - (n.log2 : Int))).toNat = 1
      rw [Int.toNat_of_nonpos (by omega), Nat.pow_zero]
    have hexp : -(52 - (n.log2 : Int)) = -((52 - n.log2 : Nat) : Int) := by omega
    rw [hnum, hden, nearest_one, Nat.sub_eq_zero_of_le hlog, Nat.pow_zero, nearest_one, Nat.mul_one, hexp, zpow_neg,
      zpow_natCast]
    rw [Nat.cast_mul, Nat.cast_pow, Nat.cast_ofNat, mul_assoc, mul_inv_cancel₀ (by positivity), mul_one]
  · have hnum : (scale n 1 (52 - n.log2)).1 = n := by
      show n * 2 ^ (52 - (n.log2 : Int)).toNat = n
      rw [Int.toNat_of_nonpos (by omega), Nat.pow_zero, Nat.mul_one]
    have hexp : -(52 - (n.log2 : Int)) = ((n.log2 - 52 : Nat) : Int) := by omega
    have hden : (scale n 1 (52 - n.log2)).2 = 2 ^ (n.log2 - 52) := by
      show 1 * 2 ^ (-(52 - (n.log2 : Int))).toNat = _
      rw [hexp, Int.toNat_natCast, Nat.one_mul]
    rw [hnum, hden, hexp, zpow_natCast]
    push_cast
    rfl

theorem mant_ofNat_pos {n : Nat} (hn : n ≠ 0) : 0 < (Binary64.ofNat n).mant := by
  have hvalue := value_ofNat hn
  have hrounded := le_rounded hn
  rw [Nat.pos_iff_ne_zero]
  intro hzero
  unfold Binary64.value at hvalue
  rw [hzero, Nat.cast_zero, zero_mul] at hvalue
  have : rounded n = 0 := by exact_mod_cast hvalue.symm
  have := Nat.pow_pos (n := n.log2) Nat.two_pos
  omega

theorem places_of_le_one {b : Binary64} (h : b.value ≤ 1) (k : Nat) : ∃ m ≤ 10 ^ k, b.places k = pointed k m := by
  have hs : (scale b.mant 1 b.exp).1 ≤ (scale b.mant 1 b.exp).2 := by
    rw [scale_le_iff, Nat.cast_one]
    exact h
  refine ⟨_, nearest_le_of_le (scale_pos Nat.one_pos _ _) ?_, rfl⟩
  rw [Nat.mul_comm]
  exact Nat.mul_le_mul_left _ hs

theorem div_le_one {a b : Binary64} (hb : 0 < b.mant) (h : a.value ≤ b.value) : (a.div b).value ≤ 1 := by
  refine value_ofFraction_le_one (scale_pos hb _ _) ((scale_le_iff _ _ _).mpr ?_)
  have hexp : (2 : ℚ) ^ a.exp = 2 ^ (a.exp - b.exp) * 2 ^ b.exp := by
    rw [← zpow_add₀ two_ne_zero, Int.sub_add_cancel]
  unfold Binary64.value at h
  rw [hexp, ← mul_assoc] at h
  exact le_of_mul_le_mul_right h (by positivity)

end BusyWait.Decimal

namespace BusyWait.Stats

open Decimal

theorem share_zero (n : Nat) : share n 0 = if n = 0 then "NaN" else "inf" := by
  cases n <;> rfl

/-- The share of a part; of nothing there is none. -/
theorem share_of_le {n d : Nat} (h : n ≤ d) : share n d = "NaN" ∨ ∃ m ≤ 10000, share n d = pointed 4 m := by
  cases d with
  | zero =>
    left
    rw [share_zero, if_pos (Nat.le_zero.mp h)]
  | succ d =>
    right
    cases n with
    | zero => exact ⟨0, Nat.zero_le _, rfl⟩
    | succ n =>
      have hle : (Binary64.ofNat (n + 1)).value ≤ (Binary64.ofNat (d + 1)).value := by
        rw [value_ofNat (Nat.succ_ne_zero d), value_ofNat (Nat.succ_ne_zero n)]
        exact_mod_cast rounded_mono h
      exact places_of_le_one (div_le_one (mant_ofNat_pos (Nat.succ_ne_zero d)) hle) 4

end BusyWait.Stats

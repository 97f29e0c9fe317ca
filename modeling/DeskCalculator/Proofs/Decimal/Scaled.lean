import DeskCalculator.Decimal.Basic
import DeskCalculator.Proofs.Numeral.DigitCount
import Mathlib.Algebra.Order.Field.Power
import Mathlib.Data.Rat.Cast.Order
import Mathlib.Tactic.Linarith
import Mathlib.Tactic.NormNum
import Mathlib.Tactic.Positivity

/-!
# The magnitude of a decimal

`Decimal.scaled c e` is the rational number `c * 10 ^ e`. `Decimal.leadingExponent` is the exponent
of the power of ten at or below it.
-/

namespace DeskCalculator.Decimal

/-- The number with this coefficient and this exponent of ten. -/
def scaled (c : Nat) (e : Int) : ℚ := c * 10 ^ e

theorem ten_zpow_pos (e : Int) : (0 : ℚ) < 10 ^ e := by positivity

theorem scaled_pos {c : Nat} (hc : c ≠ 0) (e : Int) : 0 < scaled c e := by
  have : (0 : ℚ) < c := by exact_mod_cast Nat.pos_of_ne_zero hc
  exact mul_pos this (ten_zpow_pos e)

theorem scaled_nonneg (c : Nat) (e : Int) : 0 ≤ scaled c e :=
  mul_nonneg (Nat.cast_nonneg c) (ten_zpow_pos e).le

theorem scaled_eq_zero_iff {c : Nat} {e : Int} : scaled c e = 0 ↔ c = 0 := by
  constructor
  · intro h
    by_contra hc
    exact absurd h (scaled_pos hc e).ne'
  · rintro rfl
    simp [scaled]

theorem eq_zero_congr {c d : Nat} {e f : Int} (h : scaled c e = scaled d f) : c = 0 ↔ d = 0 := by
  rw [← scaled_eq_zero_iff (e := e), h, scaled_eq_zero_iff]

theorem abs_ite_neg (s : Bool) {x : ℚ} (hx : 0 ≤ x) : |if s then -x else x| = x := by
  cases s <;> simp [abs_of_nonneg hx]

theorem scaled_mul_pow (c k : Nat) (e : Int) : scaled (c * 10 ^ k) e = scaled c (e + k) := by
  unfold scaled
  rw [zpow_add₀ (by norm_num), zpow_natCast]
  push_cast
  rw [mul_right_comm, mul_assoc]

theorem scaled_toNat (c : Nat) (e : Int) :
    scaled (c * 10 ^ e.toNat) (-((-e).toNat : Int)) = scaled c e := by
  rw [scaled_mul_pow]
  congr 1
  omega

theorem scaled_one (e : Int) : scaled 1 e = 10 ^ e := by simp [scaled]

theorem scaled_le_scaled_iff {c d : Nat} {e : Int} : scaled c e ≤ scaled d e ↔ c ≤ d := by
  unfold scaled
  rw [mul_le_mul_iff_left₀ (ten_zpow_pos e)]
  exact Nat.cast_le

theorem scaled_lt_scaled_iff {c d : Nat} {e : Int} : scaled c e < scaled d e ↔ c < d := by
  rw [← not_le, scaled_le_scaled_iff, not_le]

theorem zpow_leadingExponent_le {c : Nat} (hc : c ≠ 0) (e : Int) :
    10 ^ leadingExponent c e ≤ scaled c e := by
  have hdigits := Numeral.digitCount_pos c
  have hle := scaled_le_scaled_iff (e := e).2 (Numeral.pow_pred_digitCount_le hc)
  rwa [← Nat.one_mul (10 ^ _), scaled_mul_pow, scaled_one,
    show e + ↑(Numeral.digitCount c - 1) = leadingExponent c e by
      unfold leadingExponent
      omega] at hle

theorem scaled_lt_zpow (c : Nat) (e : Int) : scaled c e < 10 ^ (leadingExponent c e + 1) := by
  have hlt := scaled_lt_scaled_iff (e := e).2 (Numeral.lt_pow_digitCount c)
  rwa [← Nat.one_mul (10 ^ _), scaled_mul_pow, scaled_one,
    show e + ↑(Numeral.digitCount c) = leadingExponent c e + 1 by
      unfold leadingExponent
      omega] at hlt

/-- **The leading exponent** is that of the greatest power of ten that is not above the number. -/
theorem le_leadingExponent_iff {c : Nat} (hc : c ≠ 0) {e k : Int} :
    k ≤ leadingExponent c e ↔ 10 ^ k ≤ scaled c e := by
  constructor
  · intro h
    exact (zpow_le_zpow_right₀ (by norm_num) h).trans (zpow_leadingExponent_le hc e)
  · intro h
    have := h.trans_lt (scaled_lt_zpow c e)
    have := (zpow_lt_zpow_iff_right₀ (by norm_num : (1 : ℚ) < 10)).1 this
    omega

end DeskCalculator.Decimal

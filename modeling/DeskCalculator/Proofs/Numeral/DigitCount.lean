import DeskCalculator.Text.Integer
import Mathlib.Algebra.Ring.Nat

/-!
# The number of digits

`digitCount n` is the least `k` above zero with `n < 10 ^ k`: the estimate that the search starts
from is not too high (`pow_estimate_le`), and the search does not stop too early.
-/

namespace DeskCalculator.Numeral

/-- Ten to the power of an estimate by the ratio `p / q` does not lie above the number. -/
theorem pow_ratio_le {p q : Nat} (hq : q ≠ 0) (h : 10 ^ p ≤ 2 ^ q) (l : Nat) :
    10 ^ (l * p / q) ≤ 2 ^ l := by
  have hpow : (10 ^ (l * p / q)) ^ q ≤ (2 ^ l) ^ q := calc
    (10 ^ (l * p / q)) ^ q = 10 ^ (l * p / q * q) := (Nat.pow_mul ..).symm
    _ ≤ 10 ^ (p * l) := Nat.pow_le_pow_right (by decide) (Nat.mul_comm p l ▸ Nat.div_mul_le_self _ _)
    _ = (10 ^ p) ^ l := Nat.pow_mul ..
    _ ≤ (2 ^ q) ^ l := Nat.pow_le_pow_left h l
    _ = (2 ^ l) ^ q := Nat.pow_right_comm ..
  exact (Nat.pow_le_pow_iff_left hq).1 hpow

theorem pow_estimate_le (l : Nat) : 10 ^ (l * 3010 / 10000) ≤ 2 ^ l :=
  pow_ratio_le (by decide) (by decide +kernel) l

theorem lt_pow_log2 (n : Nat) : n < 10 ^ (n.log2 / 3 + 1) := calc
  n < 2 ^ (n.log2 + 1) := Nat.lt_log2_self
  _ ≤ 2 ^ (3 * (n.log2 / 3 + 1)) := Nat.pow_le_pow_right (by decide) (by omega)
  _ = (2 ^ 3) ^ (n.log2 / 3 + 1) := Nat.pow_mul ..
  _ ≤ 10 ^ (n.log2 / 3 + 1) := Nat.pow_le_pow_left (by decide) _

theorem pow_le_of_lt_lengthFrom {n fuel start k : Nat} (hstart : start ≤ k)
    (h : k < lengthFrom n fuel start) : 10 ^ k ≤ n := by
  induction fuel generalizing start with
  | zero =>
    rw [lengthFrom] at h
    omega
  | succ fuel ih =>
    rw [lengthFrom] at h
    split at h
    · omega
    · rename_i hpow
      by_cases heq : start = k
      · subst heq
        exact Nat.le_of_not_lt hpow
      · exact ih (by omega) h

theorem lt_pow_lengthFrom {n fuel start : Nat} (h : n < 10 ^ (start + fuel)) :
    n < 10 ^ lengthFrom n fuel start := by
  induction fuel generalizing start with
  | zero => exact h
  | succ fuel ih =>
    rw [lengthFrom]
    split
    · rename_i hpow
      exact hpow
    · exact ih (by rwa [Nat.add_right_comm])

theorem lt_pow_digitCount (n : Nat) : n < 10 ^ digitCount n := by
  refine lt_pow_lengthFrom ?_
  calc n < 2 ^ (n.log2 + 1) := Nat.lt_log2_self
    _ ≤ 10 ^ (n.log2 + 1) := Nat.pow_le_pow_left (by decide) _
    _ ≤ 10 ^ (n.log2 * 3010 / 10000 + 1 + (n.log2 + 1)) :=
      Nat.pow_le_pow_right (by decide) (by omega)

theorem pow_le_of_lt_digitCount {n k : Nat} (hk : 0 < k) (h : k < digitCount n) : 10 ^ k ≤ n := by
  by_cases hstart : n.log2 * 3010 / 10000 + 1 ≤ k
  · exact pow_le_of_lt_lengthFrom hstart h
  · have hn : n ≠ 0 := by
      intro hn
      subst hn
      simp at hstart
      omega
    calc 10 ^ k ≤ 10 ^ (n.log2 * 3010 / 10000) := Nat.pow_le_pow_right (by decide) (by omega)
      _ ≤ 2 ^ n.log2 := pow_estimate_le _
      _ ≤ n := Nat.log2_self_le hn

theorem le_lengthFrom (n fuel start : Nat) : start ≤ lengthFrom n fuel start := by
  induction fuel generalizing start with
  | zero => exact Nat.le_refl _
  | succ fuel ih =>
    rw [lengthFrom]
    split
    · exact Nat.le_refl _
    · exact Nat.le_of_succ_le (ih (start + 1))

theorem digitCount_pos (n : Nat) : 0 < digitCount n :=
  Nat.lt_of_lt_of_le (Nat.succ_pos _) (le_lengthFrom ..)

theorem pow_pred_digitCount_le {n : Nat} (hn : n ≠ 0) : 10 ^ (digitCount n - 1) ≤ n := by
  have := digitCount_pos n
  by_cases hone : digitCount n = 1
  · rw [hone]
    exact Nat.pos_of_ne_zero hn
  · exact pow_le_of_lt_digitCount (by omega) (by omega)

/-- **The digits of a number** are as many as the power of ten that it stays below. -/
theorem lt_digitCount_iff {n k : Nat} (hk : 0 < k) : k < digitCount n ↔ 10 ^ k ≤ n := by
  refine ⟨pow_le_of_lt_digitCount hk, fun h => ?_⟩
  have := Nat.lt_of_le_of_lt h (lt_pow_digitCount n)
  exact (Nat.pow_lt_pow_iff_right (by decide)).1 this

end DeskCalculator.Numeral

namespace DeskCalculator.Text.Integer

theorem isTooLong_iff {n : Int} : isTooLong n ↔ 10 ^ maxDigits ≤ n.natAbs := by
  simp only [isTooLong, decide_eq_true_eq]
  exact Numeral.lt_digitCount_iff (by decide)

end DeskCalculator.Text.Integer

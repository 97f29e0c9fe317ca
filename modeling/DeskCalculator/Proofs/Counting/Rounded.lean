import DeskCalculator.Proofs.Counting.Exact
import DeskCalculator.Proofs.Decimal.Whole

/-!
# Decimal counts without rounding

The decimal loops multiply and divide one factor at a time. Their partial results grow from step to
step, so that nothing is rounded where the last one fits the precision; of a binomial coefficient
this is the last product, before the last division (`Context.choose_of_lt_pow`).
-/

namespace DeskCalculator.Context

open Decimal

variable {ctx : Context} (hctx : ctx.HoldsIntegers)
include hctx

/-! ## Factorials -/

theorem factorialFrom_of_lt_pow {i count r : Nat} (hi : 0 < i)
    (h : r * i.ascFactorial count < 10 ^ ctx.precision) :
    ctx.factorialFrom i count (finite false r 0) = finite false (r * i.ascFactorial count) 0 := by
  induction count generalizing i r with
  | zero => rw [factorialFrom, Nat.ascFactorial_zero, Nat.mul_one]
  | succ count ih =>
    have hsplit : r * i.ascFactorial (count + 1) = r * i * (i + 1).ascFactorial count := by
      rw [Nat.add_comm count 1, ← Nat.ascFactorial_mul_ascFactorial, Nat.ascFactorial_succ,
        Nat.ascFactorial_zero, Nat.mul_one, Nat.mul_assoc]
      rfl
    rw [hsplit] at h ⊢
    have hpos : 0 < (i + 1).ascFactorial count := Nat.ascFactorial_pos i count
    have hproduct : ctx.mul (finite false r 0) (Decimal.ofNat i) = finite false (r * i) 0 :=
      mul_of_lt_pow hctx (Nat.lt_of_le_of_lt (Nat.le_mul_of_pos_right _ hpos) h)
    rw [factorialFrom, hproduct, ih (Nat.succ_pos i) h]

theorem factorial_of_lt_pow {n : Nat} (h : n.factorial < 10 ^ ctx.precision) :
    ctx.factorial n = finite false n.factorial 0 := by
  cases n with
  | zero => rfl
  | succ n =>
    have hproduct : 1 * Nat.ascFactorial 2 n = (n + 1).factorial := by
      rw [← Nat.one_ascFactorial, Nat.add_comm n 1, ← Nat.ascFactorial_mul_ascFactorial]
      rfl
    have hcount : (((n + 1 : Nat) : Int) - 1).toNat = n := by omega
    rw [← hproduct] at h ⊢
    rw [factorial, hcount]
    exact factorialFrom_of_lt_pow hctx (by decide) h

/-! ## Combinations -/

omit hctx in
theorem mul_choose_le (m : Nat) {j k : Nat} (h : j ≤ k) :
    (m + j).choose j * j ≤ (m + k).choose k * k := by
  refine Nat.mul_le_mul ?_ h
  rw [← Nat.choose_symm_add, ← Nat.choose_symm_add]
  exact Nat.choose_le_choose m (by omega)

theorem chooseFrom_of_lt_pow {n m k : Nat} (j count : Nat) (hm : n - k = m)
    (h : (m + (j + count)).choose (j + count) * (j + count) < 10 ^ ctx.precision) :
    ctx.chooseFrom n k (j + 1) count (finite false ((m + j).choose j) 0) =
      finite false ((m + (j + count)).choose (j + count)) 0 := by
  induction count generalizing j with
  | zero => rw [chooseFrom, Nat.add_zero]
  | succ count ih =>
    -- the product with the next factor is the next coefficient times the divisor
    have hstep : (m + j).choose j * (m + (j + 1)) = (m + (j + 1)).choose (j + 1) * (j + 1) := by
      rw [Nat.mul_comm]
      exact Nat.add_one_mul_choose_eq (m + j) j
    have hbound : (m + (j + 1)).choose (j + 1) * (j + 1) < 10 ^ ctx.precision :=
      Nat.lt_of_le_of_lt (mul_choose_le m (by omega)) h
    have hproduct : ctx.mul (finite false ((m + j).choose j) 0) (Decimal.ofNat (n - k + (j + 1))) =
        finite false ((m + (j + 1)).choose (j + 1) * (j + 1)) 0 := by
      rw [hm, ← hstep]
      exact mul_of_lt_pow hctx (hstep ▸ hbound)
    have hquotient : ctx.div (finite false ((m + (j + 1)).choose (j + 1) * (j + 1)) 0)
        (Decimal.ofNat (j + 1)) = finite false ((m + (j + 1)).choose (j + 1)) 0 :=
      div_of_lt_pow hctx (Nat.succ_ne_zero j) hbound
    have hcount : j + (count + 1) = j + 1 + count := by omega
    rw [hcount] at h ⊢
    rw [chooseFrom]
    simp only [hproduct, hquotient]
    exact ih (j + 1) h

theorem choose_of_lt_pow {n r : Int} (hr : 0 ≤ r) (hle : r ≤ n)
    (h : (min r (n - r)).toNat * n.toNat.choose r.toNat < 10 ^ ctx.precision) :
    ctx.choose n r = finite false (n.toNat.choose r.toNat) 0 := by
  generalize hk : (min r (n - r)).toNat = k at h
  have hsymm : n.toNat.choose r.toNat = n.toNat.choose k := by
    rcases Int.le_total r (n - r) with hmin | hmin
    · rw [← hk, Int.min_eq_left hmin]
    · rw [← hk, Int.min_eq_right hmin, show (n - r).toNat = n.toNat - r.toNat by omega,
        Nat.choose_symm (by omega)]
  have hsum : n.toNat - k + k = n.toNat := by omega
  rw [hsymm, Nat.mul_comm] at h
  have hchoose := chooseFrom_of_lt_pow hctx (n := n.toNat) (k := k) 0 k rfl
    (by rwa [Nat.zero_add, hsum])
  simp only [hsum, Nat.zero_add, Nat.choose_zero_right] at hchoose
  rw [choose, if_pos (Counting.isPossible_iff.2 ⟨hr, hle⟩), hsymm]
  simp only [hk]
  exact hchoose

/-! ## Arrangements -/

omit hctx in
theorem descFactorial_le_add (n : Nat) {i count : Nat} (h : i + count ≤ n) :
    n.descFactorial i ≤ n.descFactorial (i + count) := by
  induction count with
  | zero => exact Nat.le_refl _
  | succ count ih =>
    rw [← Nat.add_assoc, Nat.descFactorial_succ]
    exact Nat.le_trans (ih (by omega)) (Nat.le_mul_of_pos_left _ (by omega))

theorem arrangeFrom_of_lt_pow {n : Nat} (i count : Nat) (hle : i + count ≤ n)
    (h : n.descFactorial (i + count) < 10 ^ ctx.precision) :
    ctx.arrangeFrom n i count (finite false (n.descFactorial i) 0) =
      finite false (n.descFactorial (i + count)) 0 := by
  induction count generalizing i with
  | zero => rw [arrangeFrom, Nat.add_zero]
  | succ count ih =>
    have hcount : i + (count + 1) = i + 1 + count := by omega
    rw [hcount] at h hle ⊢
    have hnext : n.descFactorial i * (n - i) = n.descFactorial (i + 1) := by
      rw [Nat.descFactorial_succ, Nat.mul_comm]
    have hproduct : ctx.mul (finite false (n.descFactorial i) 0) (Decimal.ofNat (n - i)) =
        finite false (n.descFactorial (i + 1)) 0 := by
      rw [← hnext]
      refine mul_of_lt_pow hctx ?_
      rw [hnext]
      exact Nat.lt_of_le_of_lt (descFactorial_le_add n hle) h
    rw [arrangeFrom, hproduct, ih (i + 1) hle h]

theorem arrange_of_lt_pow {n r : Int} (hr : 0 ≤ r) (hle : r ≤ n)
    (h : n.toNat.descFactorial r.toNat < 10 ^ ctx.precision) :
    ctx.arrange n r = finite false (n.toNat.descFactorial r.toNat) 0 := by
  have harrange := arrangeFrom_of_lt_pow hctx (n := n.toNat) 0 r.toNat (by omega)
    (by rwa [Nat.zero_add])
  rw [Nat.zero_add, Nat.descFactorial_zero] at harrange
  rw [arrange, if_pos (Counting.isPossible_iff.2 ⟨hr, hle⟩)]
  exact harrange

end DeskCalculator.Context

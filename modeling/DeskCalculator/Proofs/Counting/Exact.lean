import DeskCalculator.Value.Counting
import Mathlib.Algebra.BigOperators.Group.List.Basic
import Mathlib.Data.Nat.Choose.Basic

/-!
# Exact counts

The exact loops compute the factorial, the binomial coefficient and the falling factorial. A range
product is halved down to single factors. The divisors `1` to `k` of a binomial coefficient are
cancelled one after the other: when the turn of `d` comes, `d` divides the product of the factors
that are left, so that passing along the factors uses all of it up (`cancel_of_dvd`), and dividing
by what is left of the divisors divides by ones.
-/

namespace DeskCalculator.Counting

/-! ## Factorials -/

theorem rangeProduct_eq {fuel count : Nat} (low : Nat) (h : count ≤ 2 ^ fuel) :
    rangeProduct (fuel + 1) low count = low.ascFactorial count := by
  induction fuel generalizing low count with
  | zero =>
    rcases Nat.le_one_iff_eq_zero_or_eq_one.1 h with rfl | rfl <;>
      simp [rangeProduct, Nat.ascFactorial_succ]
  | succ fuel ih =>
    rw [rangeProduct]
    split
    · simp_all
    · split
      · simp_all [Nat.ascFactorial_succ]
      · rw [Nat.pow_succ] at h
        have hsplit : count / 2 + (count - count / 2) = count := by omega
        rw [ih low (by omega), ih (low + count / 2) (by omega),
          Nat.ascFactorial_mul_ascFactorial, hsplit]

theorem factorialNat_eq (n : Nat) : factorialNat n = n.factorial := by
  rw [factorialNat, rangeProduct_eq 1 (Nat.le_of_lt Nat.lt_log2_self), Nat.one_ascFactorial]

theorem factorial_of_nonneg {n : Int} (h : 0 ≤ n) (hmax : n ≤ maxFactorialOperand) :
    factorial n = .ok (n.toNat.factorial : Int) := by
  rw [factorial, if_neg (by omega), if_neg (by omega), factorialNat_eq]

/-! ## Binomial coefficients -/

/-- **Cancelling.** A divisor of the product is used up by passing along the factors once. -/
theorem cancel_of_dvd {factors : List Nat} {d : Nat} (hd : 0 < d) (h : d ∣ factors.prod) :
    (cancel factors d).2 = 1 ∧ (cancel factors d).1.prod * d = factors.prod := by
  induction factors generalizing d with
  | nil =>
    obtain rfl := Nat.dvd_one.1 h
    exact ⟨rfl, rfl⟩
  | cons a rest ih =>
    by_cases hone : d = 1
    · subst hone
      exact ⟨rfl, Nat.mul_one _⟩
    · have hg : 0 < a.gcd d := Nat.gcd_pos_of_pos_right a hd
      have ha : a.gcd d * (a / a.gcd d) = a := Nat.mul_div_cancel' (Nat.gcd_dvd_left a d)
      have hd' : a.gcd d * (d / a.gcd d) = d := Nat.mul_div_cancel' (Nat.gcd_dvd_right a d)
      -- what is left of the divisor has nothing in common with what is left of the factor
      have hrest : d / a.gcd d ∣ rest.prod := by
        refine (Nat.coprime_div_gcd_div_gcd hg).symm.dvd_of_dvd_mul_left ?_
        refine Nat.dvd_of_mul_dvd_mul_left hg ?_
        rwa [hd', ← Nat.mul_assoc, ha, ← List.prod_cons]
      obtain ⟨hleft, hprod⟩ := ih (Nat.div_pos (Nat.gcd_le_right a hd) hg) hrest
      rw [cancel, if_neg hone]
      refine ⟨hleft, ?_⟩
      show (a / a.gcd d :: (cancel rest (d / a.gcd d)).1).prod * d = (a :: rest).prod
      rw [List.prod_cons, List.prod_cons, ← hprod]
      calc a / a.gcd d * (cancel rest (d / a.gcd d)).1.prod * d
          = a / a.gcd d * (cancel rest (d / a.gcd d)).1.prod * (a.gcd d * (d / a.gcd d)) := by
            rw [hd']
        _ = a.gcd d * (a / a.gcd d) * ((cancel rest (d / a.gcd d)).1.prod * (d / a.gcd d)) := by
            ac_rfl
        _ = a * ((cancel rest (d / a.gcd d)).1.prod * (d / a.gcd d)) := by rw [ha]

theorem cancelAll_of_dvd {factors ds : List Nat} (hds : ∀ d ∈ ds, 0 < d)
    (h : ds.prod ∣ factors.prod) :
    (cancelAll factors ds).2 = List.replicate ds.length 1 ∧
      (cancelAll factors ds).1.prod * ds.prod = factors.prod := by
  induction ds generalizing factors with
  | nil => exact ⟨rfl, Nat.mul_one _⟩
  | cons d ds ih =>
    have hd : 0 < d := hds d List.mem_cons_self
    rw [List.prod_cons] at h
    obtain ⟨hone, hprod⟩ := cancel_of_dvd hd (Nat.dvd_trans (Nat.dvd_mul_right ..) h)
    have hrest : ds.prod ∣ (cancel factors d).1.prod := by
      refine Nat.dvd_of_mul_dvd_mul_left hd ?_
      rwa [Nat.mul_comm d (cancel factors d).1.prod, hprod]
    obtain ⟨hones, hall⟩ := ih (fun d hd => hds d (List.mem_cons_of_mem _ hd)) hrest
    rw [cancelAll]
    refine ⟨?_, ?_⟩
    · show (cancel factors d).2 :: (cancelAll (cancel factors d).1 ds).2 = _
      rw [hone, hones]
      rfl
    · show (cancelAll (cancel factors d).1 ds).1.prod * (d :: ds).prod = factors.prod
      rw [List.prod_cons, ← hprod, ← hall]
      ac_rfl

theorem prod_map_sub (n k : Nat) : ((List.range k).map (n - ·)).prod = n.descFactorial k := by
  induction k with
  | zero => rfl
  | succ k ih => simp [List.range_succ, ih, Nat.descFactorial_succ, Nat.mul_comm]

theorem prod_map_succ (k : Nat) : ((List.range k).map (· + 1)).prod = k.factorial := by
  induction k with
  | zero => rfl
  | succ k ih => simp [List.range_succ, ih, Nat.factorial_succ, Nat.mul_comm]

theorem foldl_div_replicate (x k : Nat) : (List.replicate k 1).foldl (· / ·) x = x := by
  induction k with
  | zero => rfl
  | succ k ih => simpa [List.replicate_succ] using ih

/-- The factors and the divisors that the cancelling leaves of a binomial coefficient. -/
def cancelled (n k : Nat) : List Nat × List Nat :=
  cancelAll ((List.range k).map (n - ·)) ((List.range k).map (· + 1))

theorem cancelled_eq (n k : Nat) :
    (cancelled n k).2 = List.replicate k 1 ∧ (cancelled n k).1.prod = n.choose k := by
  have hdesc := n.descFactorial_eq_factorial_mul_choose k
  have hdvd : ((List.range k).map (· + 1)).prod ∣ ((List.range k).map (n - ·)).prod := by
    rw [prod_map_succ, prod_map_sub, hdesc]
    exact Nat.dvd_mul_right ..
  obtain ⟨hones, hprod⟩ := cancelAll_of_dvd (by simp) hdvd
  rw [List.length_map, List.length_range] at hones
  rw [prod_map_succ, prod_map_sub, hdesc, Nat.mul_comm] at hprod
  exact ⟨hones, Nat.eq_of_mul_eq_mul_left k.factorial_pos hprod⟩

theorem chooseNat_eq_prod (n k : Nat) : chooseNat n k = (cancelled n k).1.prod := by
  show (cancelled n k).2.foldl (· / ·) ((cancelled n k).1.foldl (· * ·) 1) = _
  rw [(cancelled_eq n k).1, foldl_div_replicate, ← List.prod_eq_foldl]

/-- **The product of the cancelled factors** is the binomial coefficient. -/
theorem chooseNat_eq (n k : Nat) : chooseNat n k = n.choose k := by
  rw [chooseNat_eq_prod, (cancelled_eq n k).2]

theorem isPossible_iff {n r : Int} : isPossible n r ↔ 0 ≤ r ∧ r ≤ n := by
  simp only [isPossible, Bool.and_eq_true, decide_eq_true_eq]
  omega

theorem choose_of_le {n r : Int} (hr : 0 ≤ r) (h : r ≤ n) :
    choose n r = (n.toNat.choose r.toNat : Int) := by
  rw [choose, if_pos (isPossible_iff.2 ⟨hr, h⟩), chooseNat_eq]
  rcases Int.le_total r (n - r) with hmin | hmin
  · rw [Int.min_eq_left hmin]
  · have hk : (n - r).toNat = n.toNat - r.toNat := by omega
    rw [Int.min_eq_right hmin, hk, Nat.choose_symm (by omega)]

/-- **The number of combinations** is `n! / (r! (n - r)!)` for `0 ≤ r ≤ n`, and zero for all other
integers. The cancelling makes every divisor one, so that the divisions at the end have no
remainder to lose and give the product of the factors. -/
theorem choose_mul_factorials (n r : Int) :
    if 0 ≤ r ∧ r ≤ n then
      choose n r * (r.toNat.factorial * (n - r).toNat.factorial) = n.toNat.factorial ∧
      (cancelled n.toNat (min r (n - r)).toNat).2 = List.replicate (min r (n - r)).toNat 1 ∧
      choose n r = (cancelled n.toNat (min r (n - r)).toNat).1.prod
    else choose n r = 0 := by
  split
  · rename_i h
    obtain ⟨hr, hle⟩ := h
    have hrest : (n - r).toNat = n.toNat - r.toNat := by omega
    have hfactorials := Nat.choose_mul_factorial_mul_factorial (Int.toNat_le_toNat hle)
    rw [Nat.mul_assoc] at hfactorials
    refine ⟨?_, (cancelled_eq _ _).1, ?_⟩
    · rw [choose_of_le hr hle, hrest]
      exact_mod_cast hfactorials
    · rw [choose, if_pos (isPossible_iff.2 ⟨hr, hle⟩), chooseNat_eq_prod]
  · rename_i h
    rw [choose, if_neg (isPossible_iff.not.2 h)]

/-! ## Arrangements -/

theorem foldl_mul_sub {n r : Nat} (h : r ≤ n) :
    (List.range r).foldl (fun (p : Int) (i : Nat) => p * ((n : Int) - i)) 1 =
      (n.descFactorial r : Int) := by
  induction r with
  | zero => rfl
  | succ r ih =>
    rw [List.range_succ, List.foldl_append, ih (by omega), Nat.descFactorial_succ, Nat.mul_comm,
      List.foldl_cons, List.foldl_nil, Int.natCast_mul, Int.ofNat_sub (by omega)]

theorem arrange_of_le {n r : Int} (hr : 0 ≤ r) (h : r ≤ n) :
    arrange n r = (n.toNat.descFactorial r.toNat : Int) := by
  rw [arrange, if_pos (isPossible_iff.2 ⟨hr, h⟩), ← foldl_mul_sub (by omega),
    Int.toNat_of_nonneg (by omega)]

end DeskCalculator.Counting

import DeskCalculator.Proofs.Decimal.RelativeError
import DeskCalculator.Proofs.Value.Number
import Mathlib.Data.Int.Log
import Mathlib.Data.Rat.Floor
import Mathlib.Data.Sign.Basic

/-!
# Rounding as a function of the number

`roundHalfUp k x` is the number `x` rounded to `k` significant digits, a half going away from zero.
Above its smallest exponent a context with halves rounded up makes this of a number, also where
another coefficient is rounded in its place (`Context.Rounds.toRat?`).
-/

namespace DeskCalculator

open Decimal

/-- The unit of the `k`-th significant digit of a number. -/
def digitUnit (k : Nat) (x : ℚ) : ℚ := 10 ^ (Int.log 10 |x| + 1 - k)

/-- A number rounded to `k` significant digits, a half going away from zero. -/
def roundHalfUp (k : Nat) (x : ℚ) : ℚ :=
  SignType.sign x * ⌊|x| / digitUnit k x + 1 / 2⌋ * digitUnit k x

@[simp] theorem digitUnit_neg (k : Nat) (x : ℚ) : digitUnit k (-x) = digitUnit k x := by
  rw [digitUnit, abs_neg, digitUnit]

@[simp] theorem roundHalfUp_zero (k : Nat) : roundHalfUp k 0 = 0 := by simp [roundHalfUp]

@[simp] theorem roundHalfUp_neg (k : Nat) (x : ℚ) : roundHalfUp k (-x) = -roundHalfUp k x := by
  simp [roundHalfUp, Left.sign_neg]

theorem roundHalfUp_ite (k : Nat) (s : Bool) (x : ℚ) :
    roundHalfUp k (if s then -x else x) = if s then -roundHalfUp k x else roundHalfUp k x := by
  cases s <;> simp

theorem digitUnit_pos (k : Nat) (x : ℚ) : 0 < digitUnit k x := ten_zpow_pos _

theorem roundHalfUp_nonneg (k : Nat) {x : ℚ} (hx : 0 ≤ x) : 0 ≤ roundHalfUp k x := by
  rcases hx.eq_or_lt with rfl | hx
  · rw [roundHalfUp_zero]
  · have hunit := digitUnit_pos k x
    have hfloor : 0 ≤ ⌊|x| / digitUnit k x + 1 / 2⌋ := Int.floor_nonneg.2 (by positivity)
    rw [roundHalfUp, sign_pos hx]
    exact mul_nonneg (mul_nonneg (by simp) (by exact_mod_cast hfloor)) hunit.le

theorem abs_roundHalfUp (k : Nat) (x : ℚ) : |roundHalfUp k x| = roundHalfUp k |x| := by
  rcases le_total 0 x with hx | hx
  · rw [abs_of_nonneg hx, abs_of_nonneg (roundHalfUp_nonneg k hx)]
  · rw [abs_of_nonpos hx, ← abs_neg, ← roundHalfUp_neg,
      abs_of_nonneg (roundHalfUp_nonneg k (neg_nonneg.2 hx))]

variable {x y : ℚ} {j : Int} {k c : Nat} {e : Int}

theorem log_eq_of_bounds (hle : 10 ^ j ≤ x) (hlt : x < 10 ^ (j + 1)) : Int.log 10 x = j := by
  have hpos : 0 < x := (ten_zpow_pos j).trans_le hle
  have hge := (Int.zpow_le_iff_le_log (b := 10) (by decide) hpos).1 (by exact_mod_cast hle)
  have := (Int.lt_zpow_iff_log_lt (b := 10) (by decide) hpos).1 (by exact_mod_cast hlt)
  omega

theorem Decimal.log_scaled (hc : c ≠ 0) (e : Int) : Int.log 10 (scaled c e) = leadingExponent c e :=
  log_eq_of_bounds (zpow_leadingExponent_le hc e) (scaled_lt_zpow c e)

theorem digitUnit_eq (hc : c ≠ 0) (habs : |x| = scaled c e) (k : Nat) :
    digitUnit k x = 10 ^ (leadingExponent c e + 1 - k) := by
  rw [digitUnit, habs, log_scaled hc]

theorem roundHalfUp_of_pos (hx : 0 < x) (hlog : Int.log 10 x = j) :
    roundHalfUp k x = ⌊x / 10 ^ (j + 1 - k) + 1 / 2⌋ * 10 ^ (j + 1 - k) := by
  rw [roundHalfUp, digitUnit, abs_of_pos hx, hlog, sign_pos hx]
  simp

theorem roundHalfUp_scaled (h : Numeral.digitCount c ≤ k) (e : Int) :
    roundHalfUp k (scaled c e) = scaled c e := by
  by_cases hc : c = 0
  · simp [hc, scaled]
  obtain ⟨i, hi⟩ : ∃ i : Nat, e - (leadingExponent c e + 1 - k) = i :=
    ⟨(e - (leadingExponent c e + 1 - k)).toNat, by unfold leadingExponent; omega⟩
  have hunit : (10 : ℚ) ^ (leadingExponent c e + 1 - k) ≠ 0 := (ten_zpow_pos _).ne'
  have hdiv : scaled c e / 10 ^ (leadingExponent c e + 1 - k) = (c * 10 ^ i : Nat) := by
    rw [scaled, mul_div_assoc, ← zpow_sub₀ (by norm_num), hi]
    push_cast
    rfl
  have hfloor : ⌊((c * 10 ^ i : Nat) : ℚ) + 1 / 2⌋ = (c * 10 ^ i : Nat) :=
    Int.floor_eq_iff.2 ⟨by push_cast; linarith, by push_cast; linarith⟩
  rw [roundHalfUp_of_pos (scaled_pos hc e) (log_scaled hc e), hdiv, hfloor, Int.cast_natCast,
    ← hdiv, div_mul_cancel₀ _ hunit]

namespace Context

variable {ctx : Context} {s t : Bool} {n d q : Nat} {f : Int}

/-! ## Rounding -/

theorem floor_eq_cut (hmode : ctx.rounding = .halfUp) (hx : ctx.Sticks n x)
    (hdigits : ctx.dropped n e ≤ Numeral.digitCount n) (hdropped : 0 < ctx.dropped n e) :
    ⌊x / 10 ^ ctx.dropped n e + 1 / 2⌋ = ctx.cut n e := by
  obtain ⟨i, hi⟩ := Nat.exists_eq_succ_of_ne_zero hdropped.ne'
  rw [cut, if_neg (Nat.not_lt.2 hdigits), hi, hmode, Rounding.divide_halfUp _ (by positivity)]
  generalize hq : (2 * n + 10 ^ (i + 1)) / (2 * 10 ^ (i + 1)) = q
  have hunit : 10 ^ (i + 1) = 2 * (5 * 10 ^ i) := by rw [Nat.pow_succ]; omega
  have hunitQ : (10 : ℚ) ^ (i + 1) = 2 * (5 * 10 ^ i : Nat) := by exact_mod_cast hunit
  have hpos : (0 : ℚ) < (5 * 10 ^ i : Nat) := by positivity
  rw [Nat.succ_eq_add_one, hunitQ]
  rw [hunit] at hq
  -- where rounding changes its mind is half a unit above and below the rounded number
  have hhalf : 5 ∣ 5 * 10 ^ i := Nat.dvd_mul_right ..
  generalize 5 * 10 ^ i = half at *
  have hdiv := Nat.div_add_mod' (2 * n + 2 * half) (2 * (2 * half))
  have hmod := Nat.mod_lt (2 * n + 2 * half) (show 0 < 2 * (2 * half) by
    have : 0 < half := by exact_mod_cast hpos
    omega)
  rw [hq, Nat.mul_left_comm q 2, Nat.mul_left_comm q 2] at hdiv
  have hdvd : 5 ∣ 2 * (q * half) := (hhalf.mul_left q).mul_left 2
  have hlow := (hx.le_iff (Nat.dvd_sub hdvd hhalf)).2 (by omega)
  have hsub : ((2 * (q * half) : Nat) : ℚ) ≤ (2 * (q * half) - half : Nat) + (half : Nat) := by
    exact_mod_cast (by omega : 2 * (q * half) ≤ 2 * (q * half) - half + half)
  have hhigh : x < ((2 * (q * half) + half : Nat) : ℚ) := by
    rw [← not_le, hx.le_iff (hdvd.add hhalf)]
    omega
  push_cast at hsub hhigh
  rw [Int.floor_eq_iff, Int.cast_natCast, ← sub_le_iff_le_add, ← lt_sub_iff_add_lt,
    le_div_iff₀ (by linarith), div_lt_iff₀ (by linarith)]
  constructor <;> linarith

/-- **Rounding half up**, above the smallest exponent. -/
theorem scaled_round_halfUp (hctx : ctx.IsWide) (hmode : ctx.rounding = .halfUp) (hn : n ≠ 0)
    (hmin : ctx.minExponent ≤ leadingExponent n e) (hx : ctx.Sticks n x)
    (h : ctx.round s n e = finite t q f) :
    t = s ∧ scaled q f = roundHalfUp ctx.precision (x * 10 ^ e) := by
  have hpos := hctx.precision_pos
  obtain ⟨hle, hlt⟩ := hx.bounds hpos hn e
  have hvalue : roundHalfUp ctx.precision (x * 10 ^ e) = _ :=
    roundHalfUp_of_pos ((ten_zpow_pos _).trans_le hle) (log_eq_of_bounds hle hlt)
  by_cases hlast : ctx.lastExponent n e ≤ e
  · have hdigits : Numeral.digitCount n ≤ ctx.precision := by
      unfold lastExponent at hlast
      omega
    have hmax : leadingExponent n e ≤ ctx.maxExponent := by
      by_contra hgt
      rw [round_of_gt hn (by omega)] at h
      cases h
    rw [round_of_le hn hmax hlast] at h
    cases h
    obtain rfl : (n : ℚ) = x := hx.resolve_right fun hsticky => by omega
    exact ⟨rfl, (roundHalfUp_scaled hdigits e).symm⟩
  · have hdropped : Numeral.digitCount n = ctx.precision + ctx.dropped n e ∧
        0 < ctx.dropped n e ∧ ctx.lastExponent n e = e + ctx.dropped n e := by
      unfold leadingExponent at hmin
      unfold dropped
      unfold lastExponent tiny at hlast ⊢
      omega
    obtain ⟨rfl, hscaled⟩ := scaled_of_round hpos hn (by omega) h
    have hunit : leadingExponent n e + 1 - ctx.precision = e + ctx.dropped n e := by
      unfold leadingExponent
      omega
    have hpow : x * 10 ^ e / 10 ^ (e + ctx.dropped n e : Int) = x / 10 ^ ctx.dropped n e := by
      rw [zpow_add₀ (by norm_num), mul_comm ((10 : ℚ) ^ e), zpow_natCast,
        mul_div_mul_right _ _ (ten_zpow_pos e).ne']
    refine ⟨rfl, ?_⟩
    rw [hvalue, hunit, hpow, floor_eq_cut hmode hx (by omega) hdropped.2.1, hscaled,
      hdropped.2.2, scaled, Int.cast_natCast]

/-- **An exact result** is rounded half up if it is not too small and does not overflow. -/
theorem Rounds.toRat? {d : Decimal} (h : ctx.Rounds x d) (hctx : ctx.IsWide)
    (hmode : ctx.rounding = .halfUp) (hmin : x ≠ 0 → 10 ^ ctx.minExponent ≤ |x|)
    (hfinite : d.isFinite) : d.toRat? = some (roundHalfUp ctx.precision x) := by
  obtain ⟨s, n, y, e, rfl, hy, rfl⟩ := h
  by_cases hn : n = 0
  · rw [hy.eq_zero_iff.1 hn, hn]
    simp [round, Decimal.toRat?, scaled]
  have hpos : 0 < y * 10 ^ e := (ten_zpow_pos _).trans_le (hy.bounds hctx.precision_pos hn e).1
  have hne : (if s then -(y * 10 ^ e) else y * 10 ^ e) ≠ 0 := by
    cases s <;> simpa using hpos.ne'
  have hle := hmin hne
  rw [abs_ite_neg s hpos.le] at hle
  have hmin := (le_leadingExponent_iff hn).2 (hy.zpow_le_iff hn hle)
  cases hround : ctx.round s n e with
  | finite t q f =>
    obtain ⟨rfl, hscaled⟩ := scaled_round_halfUp hctx hmode hn hmin hy hround
    rw [Decimal.toRat?, hscaled, roundHalfUp_ite]
  | infinite t =>
    rw [hround] at hfinite
    cases hfinite
  | nan t signaling payload =>
    rw [hround] at hfinite
    cases hfinite

end Context

end DeskCalculator

import DeskCalculator.Proofs.Decimal.Representable
import DeskCalculator.Proofs.Decimal.Sticky
import DeskCalculator.Proofs.Double.Shortest
import Mathlib.Data.Nat.Cast.Field
import Mathlib.Tactic.Ring

/-!
# The relative error of an operation

A result between the smallest exponent and the bound of a context is at most half a unit of its last
place away from the exact one, so that the relative error is at most `Context.unitRoundoff`
(`exists_round`, `exists_mul`, `exists_div`). This is so for every way of rounding to the nearest.

A quotient that is not exact comes to its rounding as a coefficient that sticks to it
(`sticks_quotient`).
-/

namespace DeskCalculator.Context

open Decimal

/-- Half a unit of the last place, relative to the smallest number with as many digits. -/
def unitRoundoff (ctx : Context) : ℚ := 5 * 10 ^ (-(ctx.precision : Int))

variable {ctx : Context} {s t : Bool} {c d n : Nat} {e f j : Int} {x : ℚ}

theorem unitRoundoff_pos (ctx : Context) : 0 < ctx.unitRoundoff :=
  mul_pos (by norm_num) (ten_zpow_pos _)

theorem unitRoundoff_le (hctx : ctx.IsWide) : ctx.unitRoundoff ≤ 1 / 2 := by
  have hpos := hctx.precision_pos
  have hpow : (10 : ℚ) ^ (-(ctx.precision : Int)) ≤ 10 ^ (-1 : Int) :=
    zpow_le_zpow_right₀ (by norm_num) (by omega)
  unfold unitRoundoff
  norm_num at hpow ⊢
  linarith

/-! ## Rounding -/

theorem scaled_of_round (hpos : 0 < ctx.precision) (hn : n ≠ 0) (hlast : e < ctx.lastExponent n e)
    {q : Nat} (h : ctx.round s n e = finite t q f) :
    t = s ∧ scaled q f = scaled (ctx.cut n e) (ctx.lastExponent n e) := by
  have hmax : leadingExponent n e ≤ ctx.maxExponent := by
    by_contra hgt
    rw [round_of_gt hn (by omega)] at h
    cases h
  rw [round_of_lt hn hmax hlast] at h
  split at h
  · rename_i hcarry
    split at h
    · cases h
    · cases h
      refine ⟨rfl, ?_⟩
      have hpow := scaled_mul_pow (10 ^ (ctx.precision - 1)) 1 (ctx.lastExponent n e)
      rw [← Nat.pow_add, Nat.sub_add_cancel hpos] at hpow
      rw [hcarry, hpow]
      rfl
  · split at h
    · cases h
    · cases h
      exact ⟨rfl, rfl⟩

theorem abs_cut_sub_le (hx : ctx.Sticks n x) (hdigits : ctx.dropped n e ≤ Numeral.digitCount n)
    (hdropped : 0 < ctx.dropped n e) :
    |((ctx.cut n e * 10 ^ ctx.dropped n e : Nat) : ℚ) - x| ≤ 10 ^ ctx.dropped n e / 2 := by
  obtain ⟨k, hk⟩ := Nat.exists_eq_succ_of_ne_zero hdropped.ne'
  rw [cut, if_neg (Nat.not_lt.2 hdigits), hk]
  -- where rounding changes its mind is half a unit above and below the rounded number
  have hunit : 10 ^ (k + 1) = 2 * (5 * 10 ^ k) := by rw [Nat.pow_succ]; omega
  have hhalf : 5 ∣ 5 * 10 ^ k := Nat.dvd_mul_right ..
  have hunitQ : (10 : ℚ) ^ (k + 1) = 2 * (5 * 10 ^ k : Nat) := by exact_mod_cast hunit
  have hn := Nat.div_add_mod' n (10 ^ (k + 1))
  generalize hq : ctx.rounding.divide n (10 ^ (k + 1)) = q
  have hnear : n ≤ q * 10 ^ (k + 1) + 5 * 10 ^ k ∧ q * 10 ^ (k + 1) ≤ n + 5 * 10 ^ k := by
    have hmod := Nat.mod_lt n (show 0 < 10 ^ (k + 1) by positivity)
    rcases Rounding.divide_cases ctx.rounding n (10 ^ (k + 1)) with ⟨heq, _⟩ | ⟨heq, _⟩
    · rw [← hq, heq]
      omega
    · rw [← hq, heq, Nat.succ_mul]
      omega
  have hdvd : 5 ∣ q * 10 ^ (k + 1) := (hunit ▸ hhalf.mul_left 2).mul_left q
  have hup := (hx.ge_iff (hdvd.add hhalf)).2 hnear.1
  have hdown := (hx.le_iff (Nat.dvd_sub hdvd hhalf)).2 (Nat.sub_le_of_le_add hnear.2)
  have hsub : q * 10 ^ (k + 1) ≤ q * 10 ^ (k + 1) - 5 * 10 ^ k + 5 * 10 ^ k := le_tsub_add
  have hsubQ : ((q * 10 ^ (k + 1) : Nat) : ℚ) ≤
      (q * 10 ^ (k + 1) - 5 * 10 ^ k : Nat) + (5 * 10 ^ k : Nat) := by exact_mod_cast hsub
  rw [Nat.succ_eq_add_one, hunitQ, abs_le]
  rw [Nat.cast_add] at hup
  constructor <;> linarith

/-- **The relative error of rounding**, above the smallest exponent. -/
theorem abs_round_sub_le (hctx : ctx.IsWide) (hn : n ≠ 0)
    (hmin : ctx.minExponent ≤ leadingExponent n e) (hx : ctx.Sticks n x) {q : Nat}
    (h : ctx.round s n e = finite t q f) :
    t = s ∧ |scaled q f - x * 10 ^ e| ≤ ctx.unitRoundoff * (x * 10 ^ e) := by
  have hpos := hctx.precision_pos
  by_cases hlast : ctx.lastExponent n e ≤ e
  · have hdigits : Numeral.digitCount n ≤ ctx.precision := by
      unfold lastExponent at hlast
      omega
    have hxn : (n : ℚ) = x := hx.resolve_right fun hsticky => by omega
    have hmax : leadingExponent n e ≤ ctx.maxExponent := by
      by_contra hgt
      rw [round_of_gt hn (by omega)] at h
      cases h
    rw [round_of_le hn hmax hlast] at h
    cases h
    rw [← hxn, scaled, sub_self, abs_zero]
    exact ⟨rfl, mul_nonneg ctx.unitRoundoff_pos.le (by positivity)⟩
  · have hlt : e < ctx.lastExponent n e := by omega
    have hdropped : Numeral.digitCount n = ctx.precision + ctx.dropped n e ∧
        ctx.lastExponent n e = e + ctx.dropped n e := by
      unfold leadingExponent at hmin
      unfold dropped
      unfold lastExponent tiny at hlt ⊢
      omega
    obtain ⟨rfl, hscaled⟩ := scaled_of_round hpos hn hlt h
    obtain ⟨k, hk⟩ : ∃ k, ctx.dropped n e = k + 1 := ⟨ctx.dropped n e - 1, by omega⟩
    have hle : ctx.dropped n e ≤ Numeral.digitCount n := by omega
    have herror := abs_cut_sub_le hx hle (by omega)
    -- the unit of the last place is small beside the first digit
    have hfirst : ((10 ^ (ctx.precision + k) : Nat) : ℚ) ≤ x := by
      have hfive : 5 ∣ 10 ^ (ctx.precision + k) := Dvd.dvd.pow (by decide) (by omega)
      refine (hx.le_iff hfive).2 ?_
      have := Numeral.pow_pred_digitCount_le hn
      rwa [hdropped.1, hk, ← Nat.add_assoc, Nat.add_sub_cancel] at this
    have hunit : (10 : ℚ) ^ (k + 1) / 2 ≤ ctx.unitRoundoff * x := calc
      (10 : ℚ) ^ (k + 1) / 2 = ctx.unitRoundoff * (10 ^ (ctx.precision + k) : Nat) := by
        rw [unitRoundoff, zpow_neg, zpow_natCast]
        push_cast
        rw [pow_add]
        field_simp
        ring
      _ ≤ ctx.unitRoundoff * x := mul_le_mul_of_nonneg_left hfirst ctx.unitRoundoff_pos.le
    refine ⟨rfl, ?_⟩
    rw [hscaled, hdropped.2, ← scaled_mul_pow, scaled, ← sub_mul, abs_mul,
      abs_of_pos (ten_zpow_pos e), ← mul_assoc]
    refine mul_le_mul_of_nonneg_right (herror.trans ?_) (ten_zpow_pos e).le
    rwa [hk]

section Bounds

variable (hctx : ctx.IsWide)
include hctx

theorem isFinite_round_of_sticks (hn : n ≠ 0) (hx : ctx.Sticks n x)
    (h : x * 10 ^ e < ctx.overflowBound) : (ctx.round s n e).isFinite :=
  (isFinite_round_iff hctx hn).2 ((hx.lt_overflowBound_iff hctx.precision_pos).1 h)

/-- **Rounding** between a power of ten that is no smaller than the smallest one, and the bound. -/
theorem exists_round (hj : ctx.minExponent ≤ j) (hx : ctx.Sticks n x) (hn : n ≠ 0)
    (hle : 10 ^ j ≤ x * 10 ^ e) (hlt : x * 10 ^ e < ctx.overflowBound) :
    ∃ q g, ctx.round s n e = finite s q g ∧ 10 ^ j ≤ scaled q g ∧
      |scaled q g - x * 10 ^ e| ≤ ctx.unitRoundoff * (x * 10 ^ e) := by
  have hpow := (le_leadingExponent_iff hn).2 (hx.zpow_le_iff hn hle)
  have hfinite := isFinite_round_of_sticks (s := s) hctx hn hx hlt
  cases hround : ctx.round s n e with
  | finite t q g =>
    obtain ⟨rfl, herror⟩ := abs_round_sub_le hctx hn (hj.trans hpow) hx hround
    obtain ⟨hq, hlead⟩ := le_leadingExponent_of_round hctx hn (hj.trans hpow) hround
    exact ⟨q, g, rfl, (le_leadingExponent_iff hq).1 (hpow.trans hlead), herror⟩
  | infinite t =>
    rw [hround] at hfinite
    cases hfinite
  | nan t signaling payload =>
    rw [hround] at hfinite
    cases hfinite

/-! ## Products and quotients -/

theorem exists_mul (hj : ctx.minExponent ≤ j) (hc : c ≠ 0) (hd : d ≠ 0)
    (hle : 10 ^ j ≤ scaled c e * scaled d f) (hlt : scaled c e * scaled d f < ctx.overflowBound) :
    ∃ q g, ctx.mul (finite s c e) (finite t d f) = finite (s != t) q g ∧ 10 ^ j ≤ scaled q g ∧
      |scaled q g - scaled c e * scaled d f| ≤ ctx.unitRoundoff * (scaled c e * scaled d f) := by
  have hproduct : scaled c e * scaled d f = ((c * d : Nat) : ℚ) * 10 ^ (e + f) := by
    rw [scaled, scaled, zpow_add₀ (by norm_num)]
    push_cast
    ring
  rw [hproduct] at hle hlt ⊢
  exact exists_round hctx hj (ctx.sticks_self _) (Nat.mul_ne_zero hc hd) hle hlt

omit hctx in
theorem pow_le_quotient (hc : c ≠ 0) (hd : d ≠ 0) {shift : Int}
    (hshift : shift = (Numeral.digitCount d : Int) - Numeral.digitCount c + ctx.precision + 1) :
    10 ^ ctx.precision ≤ c * 10 ^ shift.toNat / (d * 10 ^ (-shift).toNat) := by
  have hdpos := Nat.pos_of_ne_zero hd
  have hcle := Numeral.pow_pred_digitCount_le hc
  have hcpos := Numeral.digitCount_pos c
  have hdle := (Numeral.lt_pow_digitCount d).le
  refine (Nat.le_div_iff_mul_le (by positivity)).2 ?_
  calc 10 ^ ctx.precision * (d * 10 ^ (-shift).toNat)
      ≤ 10 ^ ctx.precision * (10 ^ Numeral.digitCount d * 10 ^ (-shift).toNat) :=
        Nat.mul_le_mul_left _ (Nat.mul_le_mul_right _ hdle)
    _ = 10 ^ (Numeral.digitCount c - 1) * 10 ^ shift.toNat := by
        rw [← Nat.pow_add, ← Nat.pow_add, ← Nat.pow_add]
        congr 1
        omega
    _ ≤ c * 10 ^ shift.toNat := Nat.mul_le_mul_right _ hcle

theorem sticks_quotient {m : Nat} (hm : 0 < m) (hq : 10 ^ ctx.precision ≤ n / m)
    (hrest : n % m ≠ 0) :
    ctx.Sticks (if n / m % 5 = 0 then n / m + 1 else n / m) ((n : ℚ) / m) := by
  have hn : (n : ℚ) = (n / m : Nat) * m + (n % m : Nat) := by exact_mod_cast (Nat.div_add_mod' n m).symm
  have hmQ : (0 : ℚ) < m := by exact_mod_cast hm
  have hquotient : (n : ℚ) / m = (n / m : Nat) + (n % m : Nat) / m := by
    rw [div_eq_iff hmQ.ne', add_mul, div_mul_cancel₀ _ hmQ.ne']
    exact hn
  have hlt : ((n % m : Nat) : ℚ) / m < 1 := by
    rw [div_lt_one hmQ]
    exact_mod_cast Nat.mod_lt n hm
  have hgt : (0 : ℚ) < (n % m : Nat) / m := by
    have : (0 : ℚ) < (n % m : Nat) := by exact_mod_cast Nat.pos_of_ne_zero hrest
    positivity
  refine .inr ⟨(Numeral.lt_digitCount_iff hctx.precision_pos).2 ?_, ?_, ?_⟩
  · split <;> omega
  · split <;> omega
  · rw [hquotient, abs_lt]
    split
    · push_cast
      constructor <;> linarith
    · constructor <;> linarith

theorem exists_divFinite (hj : ctx.minExponent ≤ j) (hc : c ≠ 0) (hd : d ≠ 0)
    (hle : 10 ^ j ≤ scaled c e / scaled d f) (hlt : scaled c e / scaled d f < ctx.overflowBound) :
    ∃ q g, ctx.divFinite s c e t d f = finite (s != t) q g ∧ 10 ^ j ≤ scaled q g ∧
      |scaled q g - scaled c e / scaled d f| ≤ ctx.unitRoundoff * (scaled c e / scaled d f) := by
  unfold divFinite
  simp only [Nat.pow_eq]
  generalize hshift : (Numeral.digitCount d : Int) - Numeral.digitCount c + ctx.precision + 1 = shift
  generalize hn : c * 10 ^ shift.toNat = n
  generalize hm : d * 10 ^ (-shift).toNat = m
  have hq : 10 ^ ctx.precision ≤ n / m := hn ▸ hm ▸ pow_le_quotient hc hd hshift.symm
  have hqpos : 0 < n / m := Nat.lt_of_lt_of_le (by positivity) hq
  have hmpos : 0 < m := hm ▸ Nat.mul_pos (Nat.pos_of_ne_zero hd) (by positivity)
  have hquotient : scaled c e / scaled d f = (n : ℚ) / m * 10 ^ (e - f - shift) := by
    have hpow : (10 : ℚ) ^ shift.toNat = 10 ^ shift * 10 ^ (-shift).toNat := by
      rw [← zpow_natCast, ← zpow_natCast, ← zpow_add₀ (by norm_num)]
      congr 1
      omega
    have hdQ : (d : ℚ) ≠ 0 := by exact_mod_cast hd
    rw [← hn, ← hm, scaled, scaled]
    push_cast
    rw [hpow, zpow_sub₀ (by norm_num), zpow_sub₀ (by norm_num)]
    field_simp
  rw [hquotient] at hle hlt ⊢
  split
  · rename_i hexact
    have hstrip := Double.scaled_div_trailingZeros (n / m) shift.toNat (e - f - shift)
    generalize Numeral.trailingZeros (n / m) shift.toNat = zeros at hstrip ⊢
    have hne : n / m / 10 ^ zeros ≠ 0 := by
      rw [Ne, ← scaled_eq_zero_iff (e := e - f - shift + zeros), hstrip, scaled_eq_zero_iff]
      exact hqpos.ne'
    have hsame : (n : ℚ) / m * 10 ^ (e - f - shift) =
        ((n / m / 10 ^ zeros : Nat) : ℚ) * 10 ^ (e - f - shift + zeros) := by
      rw [← Nat.cast_div (Nat.dvd_of_mod_eq_zero hexact) (by exact_mod_cast hmpos.ne')]
      exact hstrip.symm
    rw [hsame] at hle hlt ⊢
    exact exists_round hctx hj (ctx.sticks_self _) hne hle hlt
  · rename_i hrest
    refine exists_round hctx hj (sticks_quotient hctx hmpos hq hrest) ?_ hle hlt
    split <;> omega

theorem exists_div (hj : ctx.minExponent ≤ j) (hc : c ≠ 0) (hd : d ≠ 0)
    (hle : 10 ^ j ≤ scaled c e / scaled d f) (hlt : scaled c e / scaled d f < ctx.overflowBound) :
    ∃ q g, ctx.div (finite s c e) (finite t d f) = finite (s != t) q g ∧ 10 ^ j ≤ scaled q g ∧
      |scaled q g - scaled c e / scaled d f| ≤ ctx.unitRoundoff * (scaled c e / scaled d f) := by
  rw [div, if_neg hd, if_neg hc]
  exact exists_divFinite hctx hj hc hd hle hlt

end Bounds

end DeskCalculator.Context

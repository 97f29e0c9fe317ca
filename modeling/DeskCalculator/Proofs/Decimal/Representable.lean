import DeskCalculator.Proofs.Decimal.Rounding
import DeskCalculator.Proofs.Decimal.Whole

/-!
# The numbers of a context

A context represents a decimal whose digits and exponent it can keep. Rounding any decimal of the
same value, whatever zeros it has at its end, gives that value again (`round_of_scaled_eq`). An
integer is rounded to the nearest multiple of the unit of its last digit that is kept, a half going
up (`round_whole`).
-/

namespace DeskCalculator

namespace Numeral

/-- A whole number rounded to a number of digits, a half going up. -/
def roundHalfUp (digits n : Nat) : Nat :=
  let unit := 10 ^ (digitCount n - digits)
  (2 * n + unit) / (2 * unit) * unit

end Numeral

theorem Rounding.divide_halfUp (n : Nat) {d : Nat} (hd : 0 < d) :
    halfUp.divide n d = (2 * n + d) / (2 * d) := by
  have hn : n / d * d + n % d = n := Nat.div_add_mod' n d
  have hmod := Nat.mod_lt n hd
  have hmul (q : Nat) : q * (2 * d) = 2 * (q * d) := Nat.mul_left_comm q 2 d
  by_cases hhalf : 2 * (n % d) < d
  · have hq : halfUp.divide n d = n / d := if_pos hhalf
    refine hq.trans (Nat.div_eq_of_lt_le ?_ ?_).symm
    · rw [hmul]
      omega
    · rw [hmul, Nat.add_mul]
      omega
  · have hq : halfUp.divide n d = n / d + 1 := by
      unfold divide
      simp only [hhalf, if_false]
      split <;> rfl
    refine hq.trans (Nat.div_eq_of_lt_le ?_ ?_).symm
    · rw [hmul, Nat.add_mul]
      omega
    · rw [hmul, Nat.add_mul, Nat.add_mul]
      omega

theorem Rounding.divide_mul (mode : Rounding) (n : Nat) {d : Nat} (hd : 0 < d) :
    mode.divide (n * d) d = n := by
  simp [divide, hd]

namespace Decimal

variable {c d : Nat} {e f : Int}

theorem leadingExponent_eq (hc : c ≠ 0) (h : scaled c e = scaled d f) :
    leadingExponent c e = leadingExponent d f := by
  have hd : d ≠ 0 := fun hd => hc ((eq_zero_congr h).2 hd)
  have hiff (k : Int) : k ≤ leadingExponent c e ↔ k ≤ leadingExponent d f := by
    rw [le_leadingExponent_iff hc, le_leadingExponent_iff hd, h]
  exact Int.le_antisymm ((hiff _).1 (Int.le_refl _)) ((hiff _).2 (Int.le_refl _))

theorem scaled_natCast (c k : Nat) : scaled c (k : Int) = (c * 10 ^ k : Nat) := by
  simp [scaled]

theorem eq_mul_pow (h : scaled c e = scaled d f) (hle : e ≤ f) : c = d * 10 ^ (f - e).toNat := by
  have hscaled : scaled c e = scaled (d * 10 ^ (f - e).toNat) e := by
    rw [scaled_mul_pow, h]
    congr 1
    omega
  exact Nat.le_antisymm (scaled_le_scaled_iff.1 hscaled.le) (scaled_le_scaled_iff.1 hscaled.ge)

theorem exists_zeros (h : scaled c e = scaled d f) :
    (∃ j : Nat, c = d * 10 ^ j ∧ e = f - j) ∨ ∃ j : Nat, d = c * 10 ^ j ∧ f = e - j := by
  rcases Int.le_total e f with hle | hle
  · exact .inl ⟨(f - e).toNat, eq_mul_pow h hle, by omega⟩
  · exact .inr ⟨(e - f).toNat, eq_mul_pow h.symm hle, by omega⟩

end Decimal

namespace Context

open Decimal

/-- The context can keep the decimal `c * 10 ^ e` with all its digits and its exponent. -/
structure Represents (ctx : Context) (c : Nat) (e : Int) : Prop where
  digitCount_le : Numeral.digitCount c ≤ ctx.precision
  tiny_le : ctx.tiny ≤ e
  le_max : leadingExponent c e ≤ ctx.maxExponent

variable {ctx : Context} {c d q : Nat} {e f : Int}

theorem Represents.scaled_lt (h : ctx.Represents c e) :
    scaled c e < ctx.overflowBound := by
  obtain ⟨hdigits, -, hmax⟩ := h
  rcases Int.lt_or_eq_of_le hmax with hlt | heq
  · have hpow : (10 : ℚ) ^ (leadingExponent c e + 1) ≤ 10 ^ ctx.maxExponent :=
      zpow_le_zpow_right₀ (by norm_num) hlt
    exact (scaled_lt_zpow c e).trans_le (hpow.trans ctx.le_overflowBound)
  · exact scaled_lt_overflowBound heq hdigits

theorem cut_of_eq_mul (hq : q ≠ 0) (h : c = q * 10 ^ ctx.dropped c e) : ctx.cut c e = q := by
  have hle : 10 ^ ctx.dropped c e ≤ c := by
    conv_rhs => rw [h]
    exact Nat.le_mul_of_pos_left _ (Nat.pos_of_ne_zero hq)
  have hdropped : ¬ Numeral.digitCount c < ctx.dropped c e := by
    intro hlong
    have := Nat.pow_le_pow_right (show 0 < 10 by decide) hlong.le
    have := Numeral.lt_pow_digitCount c
    omega
  have hdivide := Rounding.divide_mul ctx.rounding q (show 0 < 10 ^ ctx.dropped c e by positivity)
  rw [cut, if_neg hdropped]
  rwa [← h] at hdivide

theorem round_zero (h : ctx.Represents 0 f) (s : Bool) (e : Int) :
    ∃ e', ctx.round s 0 e = finite s 0 e' ∧ ctx.Represents 0 e' := by
  obtain ⟨hdigits, htiny, hmax⟩ := h
  have hone : Numeral.digitCount 0 = 1 := by decide
  unfold leadingExponent at hmax
  refine ⟨max ctx.tiny (min e ctx.maxExponent), if_pos rfl, hdigits, Int.le_max_left _ _, ?_⟩
  unfold leadingExponent
  omega

/-- A number of the context is not changed by rounding, zeros at its end apart. -/
theorem round_of_scaled_eq (h : ctx.Represents d f) (heq : scaled c e = scaled d f) (s : Bool) :
    ∃ c' e', ctx.round s c e = finite s c' e' ∧ scaled c' e' = scaled d f ∧
      ctx.Represents c' e' := by
  by_cases hc : c = 0
  · have hd : d = 0 := (eq_zero_congr heq).1 hc
    subst hc hd
    obtain ⟨e', hround, hrepresents⟩ := round_zero h s e
    exact ⟨0, e', hround, by simp [scaled], hrepresents⟩
  obtain ⟨hdigits, htiny, hmax⟩ := h
  have hleading := leadingExponent_eq hc heq
  rw [← hleading] at hmax
  have hlast : ctx.lastExponent c e = max ctx.tiny (leadingExponent c e + 1 - ctx.precision) := by
    unfold lastExponent leadingExponent
    omega
  by_cases hle : ctx.lastExponent c e ≤ e
  · refine ⟨c, e, round_of_le hc hmax hle, heq, ?_, ?_, hmax⟩
    · unfold leadingExponent at hlast
      omega
    · omega
  · -- The digits that are dropped are zeros, since `d * 10 ^ f` has none of them.
    have hlef : ctx.lastExponent c e ≤ f := by
      unfold leadingExponent at hleading hlast
      omega
    have hmul : c = d * 10 ^ (f - ctx.lastExponent c e).toNat * 10 ^ ctx.dropped c e := calc
      c = d * 10 ^ (f - e).toNat := eq_mul_pow heq (by omega)
      _ = d * 10 ^ ((f - ctx.lastExponent c e).toNat + ctx.dropped c e) := by
        congr 2
        unfold dropped
        omega
      _ = _ := by rw [Nat.pow_add, Nat.mul_assoc]
    have hscaled : scaled (d * 10 ^ (f - ctx.lastExponent c e).toNat) (ctx.lastExponent c e) =
        scaled d f := by
      rw [scaled_mul_pow]
      congr 1
      omega
    generalize d * 10 ^ (f - ctx.lastExponent c e).toNat = q at hmul hscaled
    have hq : q ≠ 0 := by
      rintro rfl
      rw [Nat.zero_mul] at hmul
      exact hc hmul
    have hleadingq := leadingExponent_eq hq hscaled
    have hdigitsq : Numeral.digitCount q ≤ ctx.precision := by
      unfold leadingExponent at hleading hleadingq hlast
      omega
    have hlt : q < 10 ^ ctx.precision :=
      Nat.lt_of_lt_of_le (Numeral.lt_pow_digitCount q) (Nat.pow_le_pow_right (by decide) hdigitsq)
    refine ⟨q, ctx.lastExponent c e, ?_, hscaled, hdigitsq, by omega, by omega⟩
    rw [round_of_lt hc hmax (by omega), cut_of_eq_mul hq hmul, if_neg (by omega),
      if_neg (by omega)]

/-- **A whole number** is rounded to the nearest multiple of the unit of its last digit, a half
going up. -/
theorem round_whole (hctx : ctx.HoldsIntegers) (hmode : ctx.rounding = .halfUp) {n : Nat}
    (hmax : (Numeral.digitCount n : Int) ≤ ctx.maxExponent) (s : Bool) :
    ∃ c e, ctx.round s n 0 = finite s c e ∧
      scaled c e = (Numeral.roundHalfUp ctx.precision n : ℚ) ∧ ctx.Represents c e := by
  have hprecision := hctx.precision_pos
  have htiny := hctx.tiny_le
  by_cases hdigits : Numeral.digitCount n ≤ ctx.precision
  · have hrepresents : ctx.Represents n 0 := by
      refine ⟨hdigits, htiny, ?_⟩
      unfold leadingExponent
      omega
    obtain ⟨c, e, hround, hscaled, hce⟩ := round_of_scaled_eq hrepresents rfl s
    refine ⟨c, e, hround, hscaled.trans ?_, hce⟩
    have hexact : Numeral.roundHalfUp ctx.precision n = n := by
      rw [Numeral.roundHalfUp, Nat.sub_eq_zero_of_le hdigits]
      omega
    simp [hexact, scaled]
  · have hn : n ≠ 0 := by
      rintro rfl
      have : Numeral.digitCount 0 = 1 := by decide
      omega
    have hleading : leadingExponent n 0 ≤ ctx.maxExponent := by
      unfold leadingExponent
      omega
    have hlast : ctx.lastExponent n 0 = (Numeral.digitCount n - ctx.precision : Nat) := by
      unfold lastExponent
      omega
    have hdropped : ctx.dropped n 0 = Numeral.digitCount n - ctx.precision := by
      unfold dropped
      omega
    have hcut : ctx.cut n 0 * 10 ^ (Numeral.digitCount n - ctx.precision) =
        Numeral.roundHalfUp ctx.precision n := by
      rw [cut, if_neg (by omega), hdropped, hmode, Rounding.divide_halfUp _ (by positivity)]
      rfl
    have hround := round_of_lt (s := s) hn hleading (by omega)
    rw [hlast] at hround
    by_cases hcarry : ctx.cut n 0 = 10 ^ ctx.precision
    · have hlead : leadingExponent (10 ^ (ctx.precision - 1))
          ((Numeral.digitCount n - ctx.precision : Nat) + 1) = Numeral.digitCount n := by
        rw [leadingExponent_pow]
        omega
      have hpow : 10 ^ (ctx.precision - 1) * 10 ^ (Numeral.digitCount n - ctx.precision + 1) =
          10 ^ ctx.precision * 10 ^ (Numeral.digitCount n - ctx.precision) := by
        rw [← Nat.pow_add, ← Nat.pow_add]
        congr 1
        omega
      rw [if_pos hcarry, hlead, if_neg (by omega)] at hround
      refine ⟨_, _, hround, ?_, ?_, by omega, by omega⟩
      · rw [← hcut, hcarry, ← Nat.cast_succ, scaled_natCast, hpow]
      · exact digitCount_le hctx (Nat.pow_lt_pow_right (by decide) (by omega))
    · have hlt : ctx.cut n 0 < 10 ^ ctx.precision := by
        have hle : ctx.cut n 0 ≤ 10 ^ ctx.precision := cut_le (by omega)
        omega
      have hdigitsCut := digitCount_le hctx hlt
      have hlead : leadingExponent (ctx.cut n 0) (Numeral.digitCount n - ctx.precision : Nat) ≤
          ctx.maxExponent := by
        unfold leadingExponent
        omega
      rw [if_neg hcarry, if_neg (by omega)] at hround
      exact ⟨_, _, hround, by rw [scaled_natCast, hcut], hdigitsCut, by omega, hlead⟩

end Context

end DeskCalculator

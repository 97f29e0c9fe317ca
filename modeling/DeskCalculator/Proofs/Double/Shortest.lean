import DeskCalculator.Double.Shortest
import DeskCalculator.Proofs.Double.Nearest
import Mathlib.Data.Nat.Cast.Order.Field

/-!
# The shortest digits of a double

The search of `Double.shortest` ends with digits that read back as the double
(`shortest_readsBack`), since 17 digits are always enough (`ofScientific_seventeen`): the number with
17 digits next to the double is no further away than half a unit of its last place, which is less
than the double times `2 ^ -54`.
-/

namespace DeskCalculator.Double

open Decimal (scaled)

variable {s : Bool} {c m n d : Nat} {e f q : Int}

/-! ## Reading a coefficient and an exponent -/

theorem ratio_eq_scaled (c : Nat) (e : Int) :
    ((c * 10 ^ e.toNat : Nat) : ℚ) / (10 ^ (-e).toNat : Nat) = scaled c e := by
  have h := zpow_eq_div (b := 10) (by decide) e
  push_cast at h ⊢
  rw [scaled, h, mul_div_assoc]

/-- What is settled beforehand is what rounding the quotient would give. -/
theorem ofScientific_eq (s : Bool) (hc : c ≠ 0) (e : Int) :
    ofScientific s c e = ofRatio s (c * 10 ^ e.toNat) (10 ^ (-e).toNat) := by
  have hlow : 10 ^ (c.log2 * 3 / 10) ≤ c :=
    (Numeral.pow_ratio_le (by decide) (by decide) c.log2).trans (Nat.log2_self_le hc)
  have hhigh := (Numeral.lt_pow_log2 c).le
  unfold ofScientific
  simp only [if_neg hc, Nat.pow_eq]
  split
  · rename_i hhuge
    refine (ofRatio_eq_infinite s (j := 1024) (by positivity) (by decide) ?_).symm
    calc 10 ^ (-e).toNat * 2 ^ 1024
        ≤ 10 ^ (-e).toNat * 10 ^ 400 := Nat.mul_le_mul_left _ (by decide +kernel)
      _ ≤ 10 ^ (c.log2 * 3 / 10) * 10 ^ e.toNat := by
          rw [← Nat.pow_add, ← Nat.pow_add]
          exact Nat.pow_le_pow_right (by decide) (by omega)
      _ ≤ c * 10 ^ e.toNat := Nat.mul_le_mul_right _ hlow
  · split
    · rename_i htiny
      refine (ofRatio_eq_zero s (by positivity) ?_).symm
      calc c * 10 ^ e.toNat * 2 ^ 1076
          ≤ 10 ^ (c.log2 / 3 + 1) * 10 ^ e.toNat * 10 ^ 400 :=
            Nat.mul_le_mul (Nat.mul_le_mul_right _ hhigh) (by decide +kernel)
        _ ≤ 10 ^ (-e).toNat := by
            rw [← Nat.pow_add, ← Nat.pow_add]
            exact Nat.pow_le_pow_right (by decide) (by omega)
    · rfl

/-- **The nearest double** depends on the number alone, not on how it is split into digits and
exponent. -/
theorem ofScientific_congr (s : Bool) (h : scaled c e = scaled d f) :
    ofScientific s c e = ofScientific s d f := by
  by_cases hc : c = 0
  · rw [ofScientific, ofScientific, if_pos hc, if_pos ((Decimal.eq_zero_congr h).1 hc)]
  rw [ofScientific_eq s hc, ofScientific_eq s (mt (Decimal.eq_zero_congr h).2 hc)]
  refine ofRatio_congr (by positivity) (by positivity) ?_ s
  rw [ratio_eq_scaled, ratio_eq_scaled, h]

theorem isCanonical_ofScientific (s : Bool) (c : Nat) (e : Int) :
    (ofScientific s c e).IsCanonical := by
  by_cases hc : c = 0
  · rw [ofScientific, if_pos hc]
    exact isCanonical_signedZero s
  · rw [ofScientific_eq s hc]
    exact isCanonical_ofRatio _ _ (by positivity)

theorem ofScientific_sign (s : Bool) (h : ofScientific false c e = finite false m q) :
    ofScientific s c e = finite s m q := by
  unfold ofScientific ofRatio signedZero at h ⊢
  grind

/-! ## Magnitudes as quotients -/

theorem magnitude_pos (hm : m ≠ 0) (q : Int) : 0 < magnitude m q := by
  have : (0 : ℚ) < m := by exact_mod_cast Nat.pos_of_ne_zero hm
  exact mul_pos this (by positivity)

theorem ratio_dyadic (m : Nat) (q : Int) :
    ((dyadic m q).1 : ℚ) / (dyadic m q).2 = magnitude m q := by
  have h := zpow_eq_div (b := 2) (by decide) q
  simp only [dyadic, Nat.pow_eq]
  push_cast at h ⊢
  rw [magnitude, h, mul_div_assoc]

theorem floorLog10_bounds (hn : n ≠ 0) (hd : d ≠ 0) :
    (10 : ℚ) ^ floorLog10 n d ≤ n / d ∧ (n : ℚ) / d < (10 : ℚ) ^ (floorLog10 n d + 1) := by
  have hcount : ∀ k, k ≠ 0 → 10 ^ (Numeral.digitCount k - 1) ≤ k ∧
      k < 10 ^ (Numeral.digitCount k - 1 + 1) := fun k hk => by
    rw [Nat.sub_add_cancel (Numeral.digitCount_pos k)]
    exact ⟨Numeral.pow_pred_digitCount_le hk, Numeral.lt_pow_digitCount k⟩
  have hdifference : ((Numeral.digitCount n - 1 : Nat) : Int) - (Numeral.digitCount d - 1 : Nat) =
      (Numeral.digitCount n : Int) - Numeral.digitCount d := by
    have := Numeral.digitCount_pos n
    have := Numeral.digitCount_pos d
    omega
  refine floorLog_bounds (b := 10) (by decide) (hcount n hn) (hcount d hd) ?_
  rw [hdifference]
  rfl

/-! ## The search -/

theorem test_of_nearestPassing {test : Nat → Bool} (h : nearestPassing test n d = some c) :
    test c := by
  unfold nearestPassing at h
  simp only at h
  split at h
  · rename_i hlow hhigh
    cases h
    rcases Rounding.divide_cases .halfEven n d with ⟨hq, -⟩ | ⟨hq, -⟩
    · rwa [hq]
    · rwa [hq]
  · rename_i hlow _
    cases h
    exact hlow
  · rename_i _ hhigh
    cases h
    exact hhigh
  · cases h

theorem nearestPassing_ne_none {test : Nat → Bool} (h : test (Rounding.halfEven.divide n d)) :
    nearestPassing test n d ≠ none := by
  unfold nearestPassing
  simp only
  rcases Rounding.divide_cases .halfEven n d with ⟨hq, -⟩ | ⟨hq, -⟩
  · rw [hq] at h
    rw [h]
    split <;> simp_all
  · rw [hq] at h
    rw [h]
    split <;> simp_all

/-- Digits and an exponent that read back as a double. -/
def ReadsBack (m : Nat) (q : Int) (digits : Nat × Int) : Prop :=
  ofScientific false digits.1 digits.2 = finite false m q

section Search

variable (hnd : (n : ℚ) / d = magnitude m q)
include hnd

theorem ratio_eq_magnitude_div (e : Int) :
    ((n * 10 ^ (-e).toNat : Nat) : ℚ) / (d * 10 ^ e.toNat : Nat) = magnitude m q / 10 ^ e := by
  have h := zpow_eq_div (b := 10) (by decide) e
  push_cast at h ⊢
  rw [← hnd, h]
  field_simp

variable (hm : IsNormal m q) (hm0 : m ≠ 0) (hd : d ≠ 0)
include hm hm0 hd

/-- **Seventeen digits are enough.** -/
theorem ofScientific_seventeen (hlow : (10 : ℚ) ^ (e + 16) ≤ magnitude m q) :
    ofScientific false
      (Rounding.halfEven.divide (n * 10 ^ (-e).toNat) (d * 10 ^ e.toNat)) e = finite false m q := by
  have hpos : (0 : ℚ) < 10 ^ e := by positivity
  have hden : d * 10 ^ e.toNat ≠ 0 := Nat.mul_ne_zero hd (by positivity)
  have hhalf := Rounding.abs_divide_sub_le .halfEven hden (n * 10 ^ (-e).toNat)
  rw [ratio_eq_magnitude_div hnd] at hhalf
  generalize Rounding.halfEven.divide _ _ = c at hhalf ⊢
  -- half a unit of the seventeenth digit
  have hnear : |scaled c e - magnitude m q| * 2 ^ 54 < magnitude m q := by
    have heq : scaled c e - magnitude m q = -((magnitude m q / 10 ^ e - c) * 10 ^ e) := by
      rw [sub_mul, div_mul_cancel₀ _ hpos.ne', neg_sub]
      rfl
    rw [heq, abs_neg, abs_mul, abs_of_pos hpos]
    calc |magnitude m q / 10 ^ e - c| * 10 ^ e * 2 ^ 54 ≤ 1 / 2 * 10 ^ e * 2 ^ 54 := by gcongr
      _ < 10 ^ e * 10 ^ (16 : Int) := by
        rw [mul_comm _ ((10 : ℚ) ^ e), mul_assoc]
        gcongr
        norm_num
      _ = 10 ^ (e + 16) := (zpow_add₀ (by norm_num) _ _).symm
      _ ≤ magnitude m q := hlow
  have hc : c ≠ 0 := by
    rintro rfl
    rw [scaled, Nat.cast_zero, zero_mul, zero_sub, abs_neg, abs_of_pos (magnitude_pos hm0 q)] at hnear
    linarith [magnitude_pos hm0 q]
  rw [ofScientific_eq false hc]
  refine ofRatio_of_near false hm hm0 (by positivity) ?_
  rw [ratio_eq_scaled]
  exact hnear

theorem shortestFrom_readsBack {fuel : Nat} (hfuel : 0 < fuel) (hle : fuel ≤ 17) :
    ReadsBack m q (shortestFrom (finite false m q) n d (floorLog10 n d) fuel) := by
  have hn : n ≠ 0 := by
    rintro rfl
    have := magnitude_pos hm0 q
    rw [← hnd, Nat.cast_zero, zero_div] at this
    exact this.false
  have hlog := (floorLog10_bounds hn hd).1
  rw [hnd] at hlog
  generalize floorLog10 n d = leading at hlog ⊢
  induction fuel with
  | zero => omega
  | succ fuel ih =>
    rw [shortestFrom]
    simp only [Nat.pow_eq]
    split
    · rename_i c hsome
      simpa [ReadsBack] using test_of_nearestPassing hsome
    · rename_i hnone
      by_cases hlast : fuel = 0
      · subst hlast
        refine absurd hnone (nearestPassing_ne_none ?_)
        rw [beq_iff_eq]
        exact ofScientific_seventeen hnd hm hm0 hd (by convert hlog using 2; omega)
      · exact ih (by omega) (by omega)

end Search

/-- **The shortest digits** of a double read back as its magnitude. -/
theorem shortest_readsBack (hm : IsNormal m q) (hm0 : m ≠ 0) (s : Bool) :
    ReadsBack m q (shortest (finite s m q)) := by
  have hd : (dyadic m q).2 ≠ 0 := (Nat.pow_pos (by decide)).ne'
  exact shortestFrom_readsBack (ratio_dyadic m q) hm hm0 hd (by decide) (by decide)

/-! ## Zeros at the end -/

theorem pow_trailingZeros_dvd (c limit : Nat) : 10 ^ Numeral.trailingZeros c limit ∣ c := by
  induction limit generalizing c with
  | zero => exact Nat.one_dvd c
  | succ limit ih =>
    rw [Numeral.trailingZeros]
    split
    · rename_i hmod
      obtain ⟨k, hk⟩ := Nat.dvd_of_mod_eq_zero hmod
      rw [hk, Nat.mul_div_cancel_left _ (by decide), Nat.pow_succ']
      exact Nat.mul_dvd_mul_left 10 (ih k)
    · exact Nat.one_dvd c

theorem scaled_div_trailingZeros (c limit : Nat) (e : Int) :
    scaled (c / 10 ^ Numeral.trailingZeros c limit) (e + Numeral.trailingZeros c limit) =
      scaled c e := by
  rw [← Decimal.scaled_mul_pow, Nat.div_mul_cancel (pow_trailingZeros_dvd c limit)]

theorem scaled_stripZeros (c : Nat) (e : Int) :
    scaled (stripZeros c e).1 (stripZeros c e).2 = scaled c e :=
  scaled_div_trailingZeros c 20 e

theorem ReadsBack.ne_zero {digits : Nat × Int} (h : ReadsBack m q digits) (hm0 : m ≠ 0)
    (hscaled : scaled c e = scaled digits.1 digits.2) : c ≠ 0 := by
  rintro rfl
  have hzero := (Decimal.eq_zero_congr hscaled).1 rfl
  rw [ReadsBack, hzero, ofScientific, if_pos rfl, signedZero, Double.finite.injEq] at h
  exact hm0 h.2.1.symm

/-- All that writes the same number as digits that read back reads back too, with either sign. -/
theorem ReadsBack.ofScientific_eq {digits : Nat × Int} (h : ReadsBack m q digits)
    (hscaled : scaled c e = scaled digits.1 digits.2) (s : Bool) :
    ofScientific s c e = finite s m q :=
  ofScientific_sign s ((ofScientific_congr false hscaled).trans h)

end DeskCalculator.Double

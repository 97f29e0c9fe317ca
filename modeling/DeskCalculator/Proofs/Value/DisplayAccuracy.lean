import DeskCalculator.Proofs.Decimal.Displayed
import DeskCalculator.Proofs.Decimal.HalfUp
import DeskCalculator.Proofs.Decimal.Normal
import DeskCalculator.Proofs.Decimal.SameNumber
import DeskCalculator.Proofs.Value.Display

/-!
# How close a display is

A displayed text reads as a number near the value. Whole numbers below `10 ^ 21` and exact integers
are shown with all their digits; everything else is off by half a unit of the eleventh significant
digit at most and keeps its sign (`Value.display_accuracy`). The notation for small numbers rounds to
eleven digits (`Decimal.exists_withTenPlaces`), the other ones to twelve. That the notation is chosen
by a rounded magnitude does no harm: a whole number below `10 ^ 21` is not changed by it.
-/

namespace DeskCalculator

/-- A number as near to another one as eleven digits can be, and of the same sign. -/
structure IsNear (x y : ℚ) : Prop where
  error : |y - x| ≤ digitUnit 11 x / 2
  sign : SignType.sign y = SignType.sign x

namespace Decimal

variable {c d : Nat} {e f : Int}

theorem digitUnit_elevenDigits {x : ℚ} (hc : c ≠ 0) (habs : |x| = scaled c e) :
    digitUnit 11 x = 10 ^ (leadingExponent c e - 10) := by
  rw [digitUnit_eq hc habs]
  congr 1
  omega

theorem isNear_of_scaled (s : Bool) (hc : c ≠ 0) (hd : d ≠ 0)
    (h : |scaled d f - scaled c e| ≤ 10 ^ (leadingExponent c e - 10) / 2) :
    IsNear (if s then -scaled c e else scaled c e) (if s then -scaled d f else scaled d f) := by
  have hcpos := scaled_pos hc e
  have hdpos := scaled_pos hd f
  have hunit : digitUnit 11 (scaled c e) = 10 ^ (leadingExponent c e - 10) :=
    digitUnit_elevenDigits hc (abs_of_pos hcpos)
  cases s with
  | false =>
    refine ⟨hunit ▸ h, ?_⟩
    rw [if_neg (by decide), if_neg (by decide), sign_pos hcpos, sign_pos hdpos]
  | true =>
    simp only [if_true]
    refine ⟨?_, ?_⟩
    · rw [digitUnit, abs_neg, ← digitUnit, hunit, neg_sub_neg, abs_sub_comm]
      exact h
    · rw [sign_neg (neg_neg_of_pos hcpos), sign_neg (neg_neg_of_pos hdpos)]

/-! ## Ten places -/

/-- A rounded coefficient of eleven digits, or the power of ten behind them. -/
theorem divide_elevenDigits (mode : Rounding) (hc : c ≠ 0) {pad drop : Nat}
    (hpad : Numeral.digitCount c + pad = 11 + drop) :
    10 ^ 10 ≤ mode.divide (c * 10 ^ pad) (10 ^ drop) ∧
      mode.divide (c * 10 ^ pad) (10 ^ drop) ≤ 10 ^ 11 := by
  have hdigits := Numeral.digitCount_pos c
  have hlow : 10 ^ 10 * 10 ^ drop ≤ c * 10 ^ pad := calc
    10 ^ 10 * 10 ^ drop = 10 ^ (Numeral.digitCount c - 1) * 10 ^ pad := by
      rw [← Nat.pow_add, ← Nat.pow_add]
      congr 1
      omega
    _ ≤ c * 10 ^ pad := Nat.mul_le_mul_right _ (Numeral.pow_pred_digitCount_le hc)
  have hhigh : c * 10 ^ pad < 10 ^ 11 * 10 ^ drop := calc
    c * 10 ^ pad < 10 ^ Numeral.digitCount c * 10 ^ pad :=
      Nat.mul_lt_mul_of_pos_right (Numeral.lt_pow_digitCount c) (by positivity)
    _ = 10 ^ 11 * 10 ^ drop := by rw [← Nat.pow_add, hpad, Nat.pow_add]
  refine ⟨?_, Rounding.divide_le hhigh⟩
  exact ((Nat.le_div_iff_mul_le (by positivity)).2 hlow).trans (Rounding.div_le_divide ..)

theorem abs_divide_elevenDigits_sub_le (mode : Rounding) (c pad drop : Nat) (e : Int) :
    |scaled (mode.divide (c * 10 ^ pad) (10 ^ drop)) (e - pad + drop) - scaled c e| ≤
      10 ^ (e - pad + drop) / 2 := by
  have hpos := ten_zpow_pos (e - pad + drop)
  have hvalue : scaled c e =
      ((c * 10 ^ pad : Nat) : ℚ) / (10 ^ drop : Nat) * 10 ^ (e - pad + drop) := by
    rw [scaled, zpow_add₀ (by norm_num), zpow_sub₀ (by norm_num), zpow_natCast, zpow_natCast]
    push_cast
    field_simp
  have herror := Rounding.abs_divide_sub_le mode (show 10 ^ drop ≠ 0 by positivity) (c * 10 ^ pad)
  rw [hvalue, scaled, ← sub_mul, abs_mul, abs_of_pos hpos, abs_sub_comm, div_eq_mul_inv _ (2 : ℚ),
    mul_comm ((10 : ℚ) ^ _), ← one_div]
  exact mul_le_mul_of_nonneg_right herror hpos.le

/-- **Ten places.** A small number is rounded to eleven digits, which may carry into one more. -/
theorem exists_withTenPlaces (s : Bool) (hc : c ≠ 0) (e : Int) : ∃ q f,
    (finite s c e).withTenPlaces = (finite s q f).exponential ∧ 10 ^ 10 ≤ q ∧ q < 10 ^ 11 ∧
    leadingExponent c e - 10 ≤ f ∧ f ≤ leadingExponent c e - 9 ∧
    |scaled q f - scaled c e| ≤ 10 ^ (leadingExponent c e - 10) / 2 := by
  generalize hpad : 11 - Numeral.digitCount c = pad
  generalize hdrop : Numeral.digitCount c - 11 = drop
  have hexponent : e - pad + drop = leadingExponent c e - 10 := by
    unfold leadingExponent
    omega
  obtain ⟨hlow, hhigh⟩ := divide_elevenDigits .halfEven hc
    (show Numeral.digitCount c + pad = 11 + drop by omega)
  have herror := abs_divide_elevenDigits_sub_le .halfEven c pad drop e
  unfold withTenPlaces
  simp only [Nat.pow_eq, hpad, hdrop, hexponent]
  rw [hexponent] at herror
  generalize Rounding.halfEven.divide (c * 10 ^ pad) (10 ^ drop) = q at *
  by_cases hcarry : q = 10 ^ 11
  · refine ⟨_, _, by rw [if_pos hcarry], le_refl _, by decide, by omega, by omega, ?_⟩
    have hpow : scaled (10 ^ 11) (leadingExponent c e - 10) =
        scaled (10 ^ 10) (leadingExponent c e - 10 + 1) := scaled_mul_pow (10 ^ 10) 1 _
    rwa [hcarry, hpow] at herror
  · exact ⟨_, _, by rw [if_neg hcarry], hlow, by omega, le_refl _, by omega, herror⟩

/-! ## Twelve digits -/

theorem exists_round_of_lt {ctx : Context} (hctx : ctx.IsWide) (s : Bool) (hc : c ≠ 0)
    (hmin : ctx.minExponent ≤ leadingExponent c e) (hmax : leadingExponent c e < ctx.maxExponent) :
    ∃ q f, ctx.round s c e = finite s q f ∧ q ≠ 0 ∧
      leadingExponent c e ≤ leadingExponent q f ∧
      |scaled q f - scaled c e| ≤ ctx.unitRoundoff * scaled c e := by
  have hfinite : (ctx.round s c e).isFinite := Context.isFinite_round_of_lt hctx hc hmax
  cases hround : ctx.round s c e with
  | finite t q f =>
    obtain ⟨hq, hle⟩ := Context.le_leadingExponent_of_round hctx hc hmin hround
    obtain ⟨rfl, herror⟩ := Context.abs_round_sub_le hctx hc hmin (ctx.sticks_self c) hround
    exact ⟨q, f, rfl, hq, hle, herror⟩
  | infinite t =>
    rw [hround] at hfinite
    cases hfinite
  | nan t signaling payload =>
    rw [hround] at hfinite
    cases hfinite

theorem isModerate_displayContext : displayContext.IsModerate :=
  ⟨by decide, by decide, by decide, by decide, by decide⟩

/-- **Twelve digits** are one more than are needed. -/
theorem exists_twelveDigits (s : Bool) (hc : c ≠ 0) (hmin : -999999 ≤ leadingExponent c e)
    (hmax : leadingExponent c e < 999999) : ∃ q f,
    displayContext.plus (finite s c e) = finite s q f ∧ q ≠ 0 ∧ isStorable q f ∧
    |scaled q f - scaled c e| ≤ 10 ^ (leadingExponent c e - 10) / 2 := by
  obtain ⟨q, f, hround, hq, -, herror⟩ :=
    exists_round_of_lt isWide_displayContext s hc hmin hmax
  have hplus := (displayContext.plus_of_ne_zero s hc e).trans hround
  have hkeeps : displayContext.Keeps (finite s q f) :=
    hround ▸ Context.keeps_round isModerate_displayContext s c e
  refine ⟨q, f, hplus, hq, hkeeps.isStorable isModerate_displayContext, herror.trans ?_⟩
  calc displayContext.unitRoundoff * scaled c e
      ≤ displayContext.unitRoundoff * 10 ^ (leadingExponent c e + 1) :=
        mul_le_mul_of_nonneg_left (scaled_lt_zpow c e).le displayContext.unitRoundoff_pos.le
    _ = 10 ^ (leadingExponent c e - 10) / 2 := by
        rw [Context.unitRoundoff, show displayContext.precision = 12 from rfl,
          zpow_add₀ (by norm_num), zpow_sub₀ (by norm_num)]
        norm_num
        ring

theorem isStorable_normal (h : isStorable c e) (hd : d ≠ 0) (hscaled : scaled d f = scaled c e)
    (hle : e ≤ f) : isStorable d f := by
  rw [isStorable_iff] at h ⊢
  rw [leadingExponent_eq hd hscaled]
  exact ⟨h.1.trans hle, h.2⟩

/-! ## The display of a decimal -/

/-- **The notation** is chosen by the rounded magnitude. -/
theorem display_of_magnitude (s : Bool) {q : Nat} (hq : q ≠ 0)
    (h : magnitudeContext.round false c e = finite false q f) : (finite s c e).display =
      if leadingExponent q f < -6 then .ok (finite s c e).withTenPlaces
      else if isWhole c e ∧ leadingExponent q f < 21 then
        .ok (signText s ++ Text.group (Text.ofNat (finite s c e).toInt.natAbs))
      else if (displayContext.plus (finite s c e)).isFinite then
        .ok (displayContext.plus (finite s c e)).normalize.positionalOrExponential
      else .error .displayOverflow := by
  have hzero : (finite false q f).isZero = false := by
    cases q with
    | zero => exact absurd rfl hq
    | succ q => rfl
  unfold display
  simp only [Context.abs, h, hzero, isBelowPower, isIntegral, isFinite]
  simp [hq]

theorem natCast_lt_of_leadingExponent {n k : Nat} (hn : scaled c e = n)
    (h : leadingExponent c e < k) : n < 10 ^ k := by
  have hlt := (scaled_lt_zpow c e).trans_le
    (zpow_le_zpow_right₀ (by norm_num : (1 : ℚ) ≤ 10) (show leadingExponent c e + 1 ≤ k by omega))
  rw [hn] at hlt
  exact_mod_cast hlt

theorem leadingExponent_magnitude {n q : Nat} (hn : n < 10 ^ 21) (hq : q ≠ 0)
    (heq : scaled c e = n) (h : magnitudeContext.round false c e = finite false q f) :
    leadingExponent q f < 21 := by
  have heq : scaled c e = scaled n 0 := heq.trans (by simp [scaled])
  have hlt := leadingExponent_lt (by decide) hn 0
  have hrepresents : magnitudeContext.Represents n 0 := by
    refine ⟨Nat.le_of_not_lt fun hlong => ?_, by decide, ?_⟩
    · have := (Numeral.lt_digitCount_iff (by decide)).1 hlong
      exact absurd (Nat.lt_of_le_of_lt this hn) (by decide)
    · show leadingExponent n 0 ≤ 999999
      omega
  obtain ⟨q', f', hround, hscaled, -⟩ := Context.round_of_scaled_eq hrepresents heq false
  rw [h] at hround
  cases hround
  rw [leadingExponent_eq hq hscaled]
  omega

/-- A whole decimal is shown with all its digits. -/
theorem readDisplayed?_whole (s : Bool) {n : Nat} (heq : scaled c e = n) (h : n < 10 ^ 21) :
    readDisplayed? (signText s ++ Text.group (Text.ofNat (finite s c e).toInt.natAbs)) =
      some (finite s n 0) := by
  have hlt := leadingExponent_lt (by decide) h 0
  rw [natAbs_toInt s heq]
  refine readDisplayed?_group s (isStorable_iff.2 ⟨by decide, ?_⟩)
  show leadingExponent n 0 ≤ 999999999999999999
  omega

/-- **A decimal other than zero.** Each notation shows a number that is near enough, and a whole
number that is not too large is shown exactly. -/
theorem exists_display_of_ne_zero (s : Bool) (hc : c ≠ 0) (hmin : -999999 ≤ leadingExponent c e)
    (hmax : leadingExponent c e < 999999) : ∃ t d f,
    (finite s c e).display = .ok t ∧ readDisplayed? t = some (finite s d f) ∧ d ≠ 0 ∧
    |scaled d f - scaled c e| ≤ 10 ^ (leadingExponent c e - 10) / 2 ∧
    ∀ n : Nat, n < 10 ^ 21 → scaled c e = n → scaled d f = scaled c e := by
  have hpos := scaled_pos hc e
  obtain ⟨q, f, hround, hq, hle, -⟩ :=
    exists_round_of_lt isWide_magnitudeContext false hc hmin hmax
  rw [display_of_magnitude s hq hround]
  by_cases hsmall : leadingExponent q f < -6
  · rw [if_pos hsmall]
    obtain ⟨d, g, htext, hlow, hhigh, hge, hle', herror⟩ := exists_withTenPlaces s hc e
    have hlead := leadingExponent_lt (by decide) hhigh g
    have hd : d ≠ 0 := by omega
    have hstorable : isStorable d g := by
      refine isStorable_iff.2 ⟨?_, ?_⟩
      · show (-999999999999999999 : Int) - (999999999999999999 - 1) ≤ g
        omega
      · show leadingExponent d g ≤ 999999999999999999
        omega
    refine ⟨_, d, g, rfl, htext ▸ readDisplayed?_exponential s hstorable, hd, herror, ?_⟩
    -- a whole number is not that small
    intro n _ heq
    have hone : 10 ^ (0 : Int) ≤ scaled c e := by
      rw [heq] at hpos ⊢
      exact_mod_cast hpos
    have := (le_leadingExponent_iff hc).2 hone
    omega
  · rw [if_neg hsmall]
    by_cases hwhole : isWhole c e ∧ leadingExponent q f < 21
    · rw [if_pos hwhole]
      obtain ⟨n, heq⟩ := isWhole_iff.1 hwhole.1
      have hn : n < 10 ^ 21 := natCast_lt_of_leadingExponent heq (by omega)
      have hsame : scaled n 0 = scaled c e := by
        rw [heq]
        simp [scaled]
      have hne : n ≠ 0 := mt (eq_zero_congr hsame).1 hc
      refine ⟨_, n, 0, rfl, readDisplayed?_whole s heq hn, hne, ?_, fun _ _ _ => hsame⟩
      rw [hsame, sub_self, abs_zero]
      positivity
    · rw [if_neg hwhole]
      obtain ⟨d, g, hplus, hd, hstorable, herror⟩ := exists_twelveDigits s hc hmin hmax
      obtain ⟨d', g', hnormal, hlast, hscaled', hle'⟩ := exists_normalize s hd g
      have hd' : d' ≠ 0 := mt (eq_zero_congr hscaled').1 hd
      have hstorable' := isStorable_normal hstorable hd' hscaled' hle'
      obtain ⟨d'', g'', hread, hscaled''⟩ :=
        exists_readDisplayed?_positionalOrExponential s hd' hstorable'
      have hsame := hscaled''.trans hscaled'
      have hd'' := mt (eq_zero_congr hscaled'').1 hd'
      rw [hplus, hnormal]
      refine ⟨_, d'', g'', if_pos rfl, hread, hd'', hsame ▸ herror, ?_⟩
      -- a whole number would have been shown as one
      intro n hn heq
      exact absurd ⟨isWhole_iff.2 ⟨n, heq⟩, leadingExponent_magnitude hn hq heq hround⟩ hwhole

end Decimal

/-! ## The display of a value -/

namespace Value

/-- A value that can be displayed: an integer of at most 4300 digits, or a decimal that is zero or
has its first digit at an exponent between -999999 and 999998. -/
def IsWithinDisplay : Value → Prop
  | exact n => Numeral.digitCount n.natAbs ≤ 4300
  | decimal (.finite _ c e) =>
    c = 0 ∨ -999999 ≤ Decimal.leadingExponent c e ∧ Decimal.leadingExponent c e ≤ 999998
  | decimal _ => False

open Decimal

theorem exists_display_exact {n : Int} (h : Numeral.digitCount n.natAbs ≤ 4300) : ∃ t,
    (exact n).display = .ok t ∧ readDisplayed? t = some (Decimal.ofInt n) := by
  have hstorable : isStorable n.natAbs 0 := by
    refine isStorable_iff.2 ⟨by decide, ?_⟩
    show 0 + (Numeral.digitCount n.natAbs : Int) - 1 ≤ 999999999999999999
    omega
  by_cases hsmall : n.natAbs < Nat.pow 10 21
  · exact ⟨_, if_pos hsmall, readDisplayed?_group _ hstorable⟩
  · have hlong : ¬ Text.Integer.isTooLong n := fun hlong =>
      absurd (of_decide_eq_true hlong) (Nat.not_lt.2 h)
    have htext : (exact n).text = .ok (Text.ofInt n) := by
      simp [text, Text.Integer.write?, hlong]
    refine ⟨_, (if_neg hsmall).trans htext, ?_⟩
    rw [Text.ofInt_eq]
    exact readDisplayed?_inPlace _ (isPositional_ofNat _) hstorable

/-- **The accuracy of the display.** A value within its range is displayed. The text, without its
commas, reads as the value itself if this is an exact integer or a whole number below `10 ^ 21`; and
otherwise as a number of the same sign that is at most half a unit of the eleventh significant digit
away. -/
theorem display_accuracy {v : Value} (hv : v.IsWithinDisplay) : ∃ x t d y,
    v.toRat? = some x ∧ v.display = .ok t ∧
    Decimal.read? (t.filter (· ≠ ',')) = some d ∧ d.toRat? = some y ∧
    (v.isExact ∨ (∃ n : ℤ, x = n) ∧ |x| < 10 ^ 21 → y = x) ∧
    (¬ (v.isExact ∨ (∃ n : ℤ, x = n) ∧ |x| < 10 ^ 21) → IsNear x y) := by
  cases v with
  | exact n =>
    obtain ⟨t, hdisplay, hread⟩ := exists_display_exact hv
    exact ⟨n, t, _, n, rfl, hdisplay, hread, (standsFor_ofInt n).toRat?, fun _ => rfl,
      fun hno => absurd (.inl rfl) hno⟩
  | decimal d =>
    cases d with
    | infinite s => exact hv.elim
    | nan s signaling payload => exact hv.elim
    | finite s c e =>
      by_cases hc : c = 0
      · subst hc
        have hzero (e : Int) : (finite s 0 e).toRat? = some 0 := by
          simp [Decimal.toRat?, scaled_eq_zero_iff.2]
        have hread : readDisplayed? (zeroText s) = some (finite s 0 (-10)) := by
          cases s <;> rfl
        exact ⟨0, _, _, 0, hzero e, rfl, hread, hzero _, fun _ => rfl,
          fun hno => absurd (.inr ⟨⟨0, rfl⟩, by norm_num⟩) hno⟩
      · obtain ⟨hmin, hmax⟩ := hv.resolve_left hc
        obtain ⟨t, d, f, hdisplay, hread, hd, herror, hwhole⟩ :=
          exists_display_of_ne_zero s hc hmin (show leadingExponent c e < 999999 by omega)
        refine ⟨_, t, _, _, rfl, hdisplay, hread, rfl, ?_, fun _ => isNear_of_scaled s hc hd herror⟩
        rintro (hexact | ⟨⟨n, hn⟩, hlt⟩)
        · cases hexact
        · have habs : |if s then -scaled c e else scaled c e| = scaled c e := by
            cases s <;> simp [abs_of_pos (scaled_pos hc e)]
          have heq : scaled c e = n.natAbs := by
            rw [← habs, hn, Nat.cast_natAbs, Int.cast_abs]
          rw [habs, heq] at hlt
          rw [hwhole n.natAbs (by exact_mod_cast hlt) heq]

/-- A carry makes a number longer, and its display is still near. -/
theorem display_accuracy_carry :
    let v : Value := decimal (.finite true 999999999999 (-18))
    v.IsWithinDisplay ∧ v.display = .ok (Text.ofString "-1.0000000000e-6") ∧
      v.toRat? = some (-scaled 999999999999 (-18)) ∧
      IsNear (-scaled 999999999999 (-18)) (-scaled (10 ^ 10) (-16)) := by
  intro v
  have hwithin : v.IsWithinDisplay := .inr (by decide)
  have hdisplay : v.display = .ok (Text.ofString "-1.0000000000e-6") := by decide +kernel
  have hread : readDisplayed? (Text.ofString "-1.0000000000e-6") =
      some (finite true (10 ^ 10) (-16)) := by decide +kernel
  obtain ⟨x, t, d, y, hx, ht, hd, hy, -, hnear⟩ := display_accuracy hwithin
  obtain rfl : Text.ofString "-1.0000000000e-6" = t := Except.ok.inj (hdisplay.symm.trans ht)
  obtain rfl : finite true (10 ^ 10) (-16) = d := Option.some.inj (hread.symm.trans hd)
  obtain rfl : -scaled 999999999999 (-18) = x := Option.some.inj hx
  obtain rfl : -scaled (10 ^ 10) (-16) = y := Option.some.inj hy
  refine ⟨hwithin, hdisplay, rfl, hnear ?_⟩
  rintro (hexact | ⟨⟨n, hn⟩, -⟩)
  · cases hexact
  · -- the number lies between -1 and 0
    have hlow : (-1 : ℚ) < n := by
      rw [← hn, scaled]
      norm_num
    have hhigh : (n : ℚ) < 0 := by
      rw [← hn, scaled]
      norm_num
    norm_cast at hlow hhigh
    omega

end Value

end DeskCalculator

import DeskCalculator.Proofs.Value.DisplayAccuracy

/-!
# The notation of a display

`IsShownAs x t` tells how a number other than zero is meant to be shown: with ten places and an
exponent below `10 ^ -6`, as a whole number with commas below `10 ^ 21`, and otherwise rounded to
twelve digits, without zeros at the end, in place or with an exponent from `10 ^ 21` on. This is how
decimals are displayed (`Value.display_notation`) with one exception. The notation is chosen by a
magnitude of 28 digits, and a number just below `10 ^ -6` is rounded up to it (`IsJustSmall`), so
that it is shown as this power of ten itself, without an exponent.
-/

namespace DeskCalculator

/-- Digits with a comma before every third one from the right, none at the front. -/
inductive Text.IsGrouped : Text → Text → Prop where
  | short {digits : Text} : digits.length ≤ 3 → IsGrouped digits digits
  | more {digits grouped : Text} {a b c : Char} : digits ≠ [] → IsGrouped digits grouped →
    IsGrouped (digits ++ [a, b, c]) (grouped ++ [',', a, b, c])

theorem Text.isGrouped_group (digits : Text) : IsGrouped digits (group digits) := by
  have hgo (t : Text) : IsGrouped t.reverse (group.go t).reverse := by
    fun_induction group.go t with
    | case1 a b c d rest ih =>
      have hmore := IsGrouped.more (a := c) (b := b) (c := a) (by simp) ih
      simpa [group.go] using hmore
    | case2 short hshort =>
      refine .short ?_
      rw [List.length_reverse]
      match short, hshort with
      | [], _ | [_], _ | [_, _], _ | [_, _, _], _ => simp
      | a :: b :: c :: d :: rest, hshort => exact (hshort a b c d rest rfl).elim
  simpa [group] using hgo digits.reverse

open Decimal

/-- A number that is shown rounded to twelve digits. -/
structure IsShownRounded (x : ℚ) : Prop where
  not_small : 10 ^ (-6 : Int) ≤ |x|
  not_whole : ¬ ((∃ n : Nat, |x| = n) ∧ |x| < 10 ^ 21)

/-- How a number other than zero is meant to be shown. -/
inductive IsShownAs (x : ℚ) : Text → Prop where
  | tenPlaces {w : Text} {q : Nat} {k : Int} : |x| < 10 ^ (-6 : Int) → IsPositional w q 10 →
    10 ^ 10 ≤ q → q < 10 ^ 11 → |scaled q (k - 10) - (|x|)| ≤ digitUnit 11 x / 2 →
    IsShownAs x (signText (x < 0) ++ w ++ 'e' :: exponentText k)
  | grouped {n : Nat} {w : Text} : |x| = n → n < 10 ^ 21 → Text.IsGrouped (Text.ofNat n) w →
    IsShownAs x (signText (x < 0) ++ w)
  | positional {w : Text} {c k : Nat} : IsShownRounded x → |roundHalfUp 12 x| < 10 ^ 21 →
    IsPositional w c k → k = 0 ∨ c % 10 ≠ 0 → scaled c (-(k : Int)) = |roundHalfUp 12 x| →
    IsShownAs x (signText (x < 0) ++ w)
  | exponential {w : Text} {c k : Nat} {e : Int} : IsShownRounded x → 10 ^ 21 ≤ |roundHalfUp 12 x| →
    IsPositional w c k → 10 ^ k ≤ c → c < 10 ^ (k + 1) → c % 10 ≠ 0 →
    scaled c (e - k) = |roundHalfUp 12 x| →
    IsShownAs x (signText (x < 0) ++ w ++ 'e' :: exponentText e)

/-- A number below `10 ^ -6` that 28 digits round up to it. -/
def IsJustSmall (x : ℚ) : Prop :=
  scaled 99999999999999999999999999995 (-35) ≤ |x| ∧ |x| < 10 ^ (-6 : Int)

theorem IsJustSmall.ne_natCast {x : ℚ} (h : IsJustSmall x) (n : Nat) : |x| ≠ n := by
  obtain ⟨hlow, hhigh⟩ := h
  intro hn
  rw [hn] at hlow hhigh
  rcases Nat.eq_zero_or_pos n with rfl | hpos
  · norm_num [scaled] at hlow
  · have hone : (1 : ℚ) ≤ n := by exact_mod_cast hpos
    norm_num at hhigh
    linarith

/-- Just below `10 ^ -6` a number is meant to have an exponent. -/
theorem IsJustSmall.not_isShownAs {x : ℚ} (h : IsJustSmall x) (s : Bool) :
    ¬ IsShownAs x (signText s ++ Text.ofString "0.000001") := by
  intro hshown
  generalize ht : signText s ++ Text.ofString "0.000001" = t at hshown
  cases hshown with
  | tenPlaces =>
    have hmem : 'e' ∈ signText s ++ Text.ofString "0.000001" := by
      rw [ht]
      simp
    cases s <;> exact absurd hmem (by decide)
  | grouped hwhole => exact h.ne_natCast _ hwhole
  | positional hrounded => exact absurd h.2 (not_lt.2 hrounded.not_small)
  | exponential hrounded => exact absurd h.2 (not_lt.2 hrounded.not_small)

namespace Decimal

variable {c q : Nat} {e f : Int}

theorem exists_normal_twelveDigits (s : Bool) (hc : c ≠ 0) (hmin : -999999 ≤ leadingExponent c e)
    (hmax : leadingExponent c e < 999999) : ∃ d g,
    (displayContext.plus (finite s c e)).isFinite ∧
    (displayContext.plus (finite s c e)).normalize = finite s d g ∧ d % 10 ≠ 0 ∧
    scaled d g = roundHalfUp 12 (scaled c e) ∧ leadingExponent c e ≤ leadingExponent d g := by
  obtain ⟨q, f, hround, hq, hle, -⟩ := exists_round_of_lt isWide_displayContext s hc hmin hmax
  have hplus := (displayContext.plus_of_ne_zero s hc e).trans hround
  obtain ⟨d, g, hnormal, hd, hscaled, -⟩ := exists_normalize s hq f
  have hhalfUp := (Context.scaled_round_halfUp isWide_displayContext rfl hc hmin
    (Context.sticks_self _ c) hround).2
  have hlead := leadingExponent_eq (mt (eq_zero_congr hscaled).1 hq) hscaled
  rw [hplus]
  exact ⟨d, g, rfl, hnormal, hd, hscaled.trans hhalfUp, hlead ▸ hle⟩

theorem exists_exponential_eq (s : Bool) (hc : c ≠ 0) (e : Int) : ∃ (w : Text) (k : Nat),
    (finite s c e).exponential = signText s ++ w ++ 'e' :: exponentText (e + k) ∧
    IsPositional w c k ∧ 10 ^ k ≤ c ∧ c < 10 ^ (k + 1) := by
  obtain ⟨k, hk⟩ : ∃ k, (Text.ofNat c).length = k + 1 :=
    Nat.exists_eq_add_one.2 (List.length_pos_iff.2 (Text.ofNat_ne_nil c))
  have hw := isPositional_withLeadingPoint c
  rw [hk, Nat.add_sub_cancel] at hw
  refine ⟨_, k, ?_, hw, ?_, (Text.length_ofNat_le_iff (Nat.succ_pos k)).1 hk.le⟩
  · rw [exponential, hk]
    congr 3
    omega
  · rcases Nat.eq_zero_or_pos k with rfl | hpos
    · exact Nat.pos_of_ne_zero hc
    · exact Nat.not_lt.1 (mt (Text.length_ofNat_le_iff hpos).2 (by omega))

/-! ## Each notation -/

section Notations

variable {s : Bool} {x : ℚ} (hc : c ≠ 0) (habs : |x| = scaled c e) (hsign : decide (x < 0) = s)
include hc habs hsign

theorem isShownAs_withTenPlaces (hsmall : |x| < 10 ^ (-6 : Int)) :
    IsShownAs x (finite s c e).withTenPlaces := by
  obtain ⟨q, f, htext, hlow, hhigh, -, -, herror⟩ := exists_withTenPlaces s hc e
  obtain ⟨w, k, hexponential, hw, hk, hk'⟩ := exists_exponential_eq s (show q ≠ 0 by omega) f
  obtain rfl : k = 10 := by
    have h₁ := (Nat.pow_lt_pow_iff_right (show 1 < 10 by decide)).1 (Nat.lt_of_le_of_lt hk hhigh)
    have h₂ := (Nat.pow_lt_pow_iff_right (show 1 < 10 by decide)).1 (Nat.lt_of_le_of_lt hlow hk')
    omega
  rw [htext, hexponential, ← hsign]
  refine .tenPlaces hsmall hw hlow hhigh ?_
  rwa [habs, digitUnit_elevenDigits hc habs, show f + (10 : Nat) - 10 = f by omega]

omit hc in
/-- **A whole number** is shown with commas. -/
theorem isShownAs_group {n : Nat} (hn : scaled c e = n) (hlt : n < 10 ^ 21) :
    IsShownAs x (signText s ++ Text.group (Text.ofNat (finite s c e).toInt.natAbs)) := by
  rw [natAbs_toInt s hn, ← hsign]
  exact .grouped (habs.trans hn) hlt (Text.isGrouped_group _)

/-- **Twelve digits** are shown of other numbers. -/
theorem exists_isShownAs_rounded (hrounded : IsShownRounded x)
    (hmax : leadingExponent c e < 999999) :
    (displayContext.plus (finite s c e)).isFinite ∧
      IsShownAs x (displayContext.plus (finite s c e)).normalize.positionalOrExponential := by
  have hmin : -6 ≤ leadingExponent c e := (le_leadingExponent_iff hc).2 (habs ▸ hrounded.not_small)
  obtain ⟨d, g, hfinite, hnormal, hd, hvalue, hle⟩ :=
    exists_normal_twelveDigits s hc (show -999999 ≤ leadingExponent c e by omega) hmax
  rw [← habs, ← abs_roundHalfUp] at hvalue
  have hd0 : d ≠ 0 := by
    rintro rfl
    exact hd rfl
  have hlarge : 21 ≤ leadingExponent d g ↔ 10 ^ 21 ≤ |roundHalfUp 12 x| := by
    rw [le_leadingExponent_iff hd0, hvalue]
    norm_cast
  refine ⟨hfinite, ?_⟩
  rw [hnormal]
  by_cases h : leadingExponent d g < 21
  · have hlt := not_le.1 (mt hlarge.2 (Int.not_le.2 h))
    obtain ⟨w, hfixed, hw⟩ := isPositional_fixed s d g
    rw [positionalOrExponential, if_pos ⟨by omega, h⟩, hfixed, ← hsign]
    refine .positional hrounded hlt hw ?_ ?_
    · by_cases hg : 0 ≤ g
      · exact .inl (by omega)
      · rw [show g.toNat = 0 by omega, Nat.pow_zero, Nat.mul_one]
        exact .inr hd
    · rw [scaled_toNat, hvalue]
  · have hge := hlarge.1 (Int.not_lt.1 h)
    obtain ⟨w, k, hexponential, hw, hk, hk'⟩ := exists_exponential_eq s hd0 g
    rw [positionalOrExponential, if_neg fun hrange => h hrange.2, hexponential, ← hsign]
    exact .exponential hrounded hge hw hk hk' hd (by rw [Int.add_sub_cancel, hvalue])

/-! ## The choice of the notation -/

/-- **Just below** `10 ^ -6` a number is shown as this power of ten, in place. -/
theorem positionalOrExponential_of_isJustSmall (h : IsJustSmall x) :
    (displayContext.plus (finite s c e)).isFinite ∧
      (displayContext.plus (finite s c e)).normalize.positionalOrExponential =
        signText s ++ Text.ofString "0.000001" := by
  obtain ⟨hlow, hhigh⟩ := h
  rw [habs] at hlow hhigh
  have hpow : 10 ^ (-7 : Int) ≤ scaled c e := le_trans (by norm_num [scaled]) hlow
  have hlog := log_eq_of_bounds hpow hhigh
  have hlead : leadingExponent c e = -7 := (log_scaled hc e).symm.trans hlog
  have hrounded : roundHalfUp 12 (scaled c e) = scaled 1 (-6) := by
    have hfloor : ⌊scaled c e / 10 ^ (-18 : Int) + 1 / 2⌋ = 10 ^ 12 := by
      generalize scaled c e = y at hlow hhigh
      rw [Int.floor_eq_iff, zpow_neg, div_inv_eq_mul]
      norm_num [scaled] at hlow hhigh ⊢
      constructor <;> linarith
    have hvalue : roundHalfUp 12 (scaled c e) =
        ⌊scaled c e / 10 ^ (-18 : Int) + 1 / 2⌋ * 10 ^ (-18 : Int) :=
      roundHalfUp_of_pos (scaled_pos hc e) hlog
    rw [hvalue, hfloor]
    norm_num [scaled]
  obtain ⟨d, g, hfinite, hnormal, hd, hscaled, -⟩ := exists_normal_twelveDigits s hc
    (show -999999 ≤ leadingExponent c e by omega) (show leadingExponent c e < 999999 by omega)
  obtain ⟨rfl, rfl⟩ := eq_of_scaled_eq hd (by decide) (hscaled.trans hrounded)
  refine ⟨hfinite, ?_⟩
  rw [hnormal]
  cases s <;> rfl

theorem exists_display_notation (hmin : -999999 ≤ leadingExponent c e)
    (hmax : leadingExponent c e < 999999) : ∃ t, (finite s c e).display = .ok t ∧
      (¬ IsJustSmall x → IsShownAs x t) ∧
      (IsJustSmall x → t = signText s ++ Text.ofString "0.000001") := by
  obtain ⟨q, f, hround, hq, hle, -⟩ :=
    exists_round_of_lt isWide_magnitudeContext false hc hmin hmax
  -- the rounded magnitude is small unless the number is rounded up to `10 ^ -6`
  have hcarry : leadingExponent q f ≤ -7 ↔
      scaled c e < scaled 99999999999999999999999999995 (-35) :=
    Context.leadingExponent_round_le_iff isWide_magnitudeContext hc (by decide) hround
  rw [display_of_magnitude s hq hround]
  by_cases hsmall : leadingExponent q f < -6
  · have hlt := hcarry.1 (by omega)
    have hbelow : |x| < 10 ^ (-6 : Int) := by
      rw [habs]
      refine (scaled_lt_zpow c e).trans_le (zpow_le_zpow_right₀ (by norm_num) (by omega))
    rw [if_pos hsmall]
    exact ⟨_, rfl, fun _ => isShownAs_withTenPlaces hc habs hsign hbelow,
      fun h => absurd (habs ▸ h.1) (not_le.2 hlt)⟩
  rw [if_neg hsmall]
  have hge : scaled 99999999999999999999999999995 (-35) ≤ |x| := by
    rw [habs, ← not_lt, ← hcarry]
    omega
  by_cases hwhole : isWhole c e ∧ leadingExponent q f < 21
  · rw [if_pos hwhole]
    obtain ⟨n, hn⟩ := isWhole_iff.1 hwhole.1
    have hlt : n < 10 ^ 21 := natCast_lt_of_leadingExponent hn (by omega)
    exact ⟨_, rfl, fun _ => isShownAs_group habs hsign hn hlt,
      fun h => absurd (habs.trans hn) (h.ne_natCast n)⟩
  · rw [if_neg hwhole]
    by_cases hjust : IsJustSmall x
    · obtain ⟨hfinite, htext⟩ := positionalOrExponential_of_isJustSmall hc habs hsign hjust
      exact ⟨_, if_pos hfinite, fun h => absurd hjust h, fun _ => htext⟩
    · have hrounded : IsShownRounded x := by
        refine ⟨not_lt.1 fun hlt => hjust ⟨hge, hlt⟩, ?_⟩
        rintro ⟨⟨n, hn⟩, hlt⟩
        rw [hn] at hlt
        rw [habs] at hn
        exact hwhole ⟨isWhole_iff.2 ⟨n, hn⟩,
          leadingExponent_magnitude (by exact_mod_cast hlt) hq hn hround⟩
      obtain ⟨hfinite, hshown⟩ := exists_isShownAs_rounded hc habs hsign hrounded hmax
      exact ⟨_, if_pos hfinite, fun _ => hshown, fun h => absurd h hjust⟩

end Notations

end Decimal

namespace Value

/-- **The notation of a display.** A decimal other than zero within the range of the display is
shown as it is meant to be, unless it is just below `10 ^ -6`; then it is shown as this number. -/
theorem display_notation {v : Decimal} {x : ℚ} (hv : (decimal v).IsWithinDisplay)
    (hx : v.toRat? = some x) (hne : x ≠ 0) : ∃ t, (decimal v).display = .ok t ∧
      (IsShownAs x t ↔ ¬ IsJustSmall x) ∧
      (IsJustSmall x → t = signText (x < 0) ++ Text.ofString "0.000001") := by
  cases v with
  | infinite s => cases hx
  | nan s signaling payload => cases hx
  | finite s c e =>
    obtain rfl := Option.some.inj hx
    have hc : c ≠ 0 := by
      rintro rfl
      exact hne (by simp [scaled])
    have hpos := scaled_pos hc e
    have hsign : decide ((if s then -scaled c e else scaled c e) < 0) = s := by
      cases s <;> simp [hpos, hpos.le]
    obtain ⟨hmin, hmax⟩ := hv.resolve_left hc
    obtain ⟨t, hdisplay, hshown, hjust⟩ := exists_display_notation hc
      (abs_ite_neg s (scaled_nonneg c e)) hsign hmin (by omega)
    refine ⟨t, hdisplay, ⟨fun h hj => ?_, hshown⟩, fun hj => by rw [hjust hj, hsign]⟩
    rw [hjust hj] at h
    exact hj.not_isShownAs s h

/-- A small number with fifteen digits. -/
theorem display_notation_small :
    let x := scaled 123456789012345 (-22)
    (decimal (.finite false 123456789012345 (-22))).IsWithinDisplay ∧
      (Decimal.finite false 123456789012345 (-22)).toRat? = some x ∧ x ≠ 0 ∧
      IsShownAs x (Text.ofString "1.2345678901e-8") := by
  intro x
  have hwithin : (decimal (.finite false 123456789012345 (-22))).IsWithinDisplay := .inr (by decide)
  have hne : x ≠ 0 := (scaled_pos (by decide) _).ne'
  obtain ⟨t, hdisplay, hshown, -⟩ := display_notation hwithin rfl hne
  have htext : (decimal (.finite false 123456789012345 (-22))).display =
      .ok (Text.ofString "1.2345678901e-8") := by decide +kernel
  obtain rfl := Except.ok.inj (htext.symm.trans hdisplay)
  refine ⟨hwithin, rfl, hne, hshown.2 fun h => absurd h.1 (not_le.2 ?_)⟩
  norm_num [x, scaled]

/-- Thirty nines just below `10 ^ -6` are shown without an exponent. -/
theorem display_just_small :
    let x := scaled 999999999999999999999999999999 (-36)
    (decimal (.finite false 999999999999999999999999999999 (-36))).IsWithinDisplay ∧
      (Decimal.finite false 999999999999999999999999999999 (-36)).toRat? = some x ∧
      x ≠ 0 ∧ |x| < 10 ^ (-6 : Int) ∧
      (decimal (.finite false 999999999999999999999999999999 (-36))).display =
        .ok (Text.ofString "0.000001") ∧
      ¬ IsShownAs x (Text.ofString "0.000001") := by
  intro x
  have hpos : 0 < x := scaled_pos (by decide) _
  have hjust : IsJustSmall x := by
    rw [IsJustSmall, abs_of_pos hpos]
    constructor <;> norm_num [x, scaled]
  exact ⟨.inr (by decide), rfl, hpos.ne', hjust.2, by decide +kernel, hjust.not_isShownAs false⟩

end Value

end DeskCalculator

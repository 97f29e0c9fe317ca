import DeskCalculator.Proofs.Decimal.Normal
import DeskCalculator.Proofs.Decimal.SameNumber
import DeskCalculator.Proofs.Value.DisplayAccuracy

/-!
# Equal numbers and their texts

The texts of a decimal depend on its number and its sign, not on its exponent and the zeros at its
end (`Decimal.display_congr`, `Decimal.plain_congr`). Numbers that are equal have equal signs, zero
excepted, and the texts of zero show the sign: two decimals of one number have the same texts unless
they are zeros of opposite signs (`Value.texts_eq_iff`).
-/

namespace DeskCalculator

open Decimal

namespace Decimal

variable {a b : Decimal} {c d : Nat} {e f : Int}

/-! ## What the notation is chosen by -/

theorem isFinite_congr (h : a.toRat? = b.toRat?) : a.isFinite = b.isFinite := by
  rw [← isSome_toRat?, ← isSome_toRat?, h]

theorem toRat?_eq_zero_iff {s : Bool} : (finite s c e).toRat? = some 0 ↔ c = 0 := by
  cases s <;> simp [toRat?, scaled_eq_zero_iff]

theorem isZero_iff : a.isZero ↔ a.toRat? = some 0 := by
  cases a with
  | finite s c e =>
    rw [toRat?_eq_zero_iff]
    cases c <;> simp [isZero]
  | _ => simp [isZero, toRat?]

theorem isBelowPower_iff {k : Int} : a.isBelowPower k ↔ ∃ x, a.toRat? = some x ∧ |x| < 10 ^ k := by
  cases a with
  | finite s c e =>
    simp only [toRat?, Option.some.injEq, exists_eq_left', abs_ite_neg s (scaled_nonneg c e)]
    by_cases hc : c = 0
    · simp [isBelowPower, hc, scaled, ten_zpow_pos]
    · simp [isBelowPower, hc, ← not_le, le_leadingExponent_iff hc]
  | _ => simp [isBelowPower, toRat?]

theorem isZero_congr (h : a.toRat? = b.toRat?) : a.isZero = b.isZero := by
  rw [Bool.eq_iff_iff, isZero_iff, isZero_iff, h]

theorem isBelowPower_congr (h : a.toRat? = b.toRat?) (k : Int) :
    a.isBelowPower k = b.isBelowPower k := by
  rw [Bool.eq_iff_iff, isBelowPower_iff, isBelowPower_iff, h]

/-! ## Each notation -/

theorem withTenPlaces_mul_pow (s : Bool) (hd : d ≠ 0) (j : Nat) (f : Int) :
    (finite s (d * 10 ^ j) (f - j)).withTenPlaces = (finite s d f).withTenPlaces := by
  have hdigits := Context.digitCount_mul_pow hd j
  generalize hdrop : Numeral.digitCount d - 11 = drop
  generalize hpad : 11 - Numeral.digitCount d = pad
  generalize hmore : Numeral.digitCount d + j - 11 - drop = more
  have hdrop' : Numeral.digitCount d + j - 11 = drop + more := by omega
  have hpad' : j + (11 - (Numeral.digitCount d + j)) = pad + more := by omega
  have hexponent : f - j - (11 - (Numeral.digitCount d + j) : Nat) + (drop + more : Nat) =
      f - pad + drop := by omega
  have hdivide := Rounding.divide_mul_mul .halfEven (show 0 < 10 ^ more by positivity)
    (d * 10 ^ pad) (10 ^ drop)
  unfold withTenPlaces
  simp only [Nat.pow_eq]
  rw [hdigits, hdrop', hdrop, hpad, Nat.mul_assoc, ← Nat.pow_add, hpad', hexponent, Nat.pow_add,
    Nat.pow_add, ← Nat.mul_assoc, hdivide]

theorem withTenPlaces_congr (s : Bool) (hc : c ≠ 0) (h : scaled c e = scaled d f) :
    (finite s c e).withTenPlaces = (finite s d f).withTenPlaces := by
  have hd := mt (eq_zero_congr h).2 hc
  rcases exists_zeros h with ⟨j, rfl, rfl⟩ | ⟨j, rfl, rfl⟩
  · exact withTenPlaces_mul_pow s hd j f
  · exact (withTenPlaces_mul_pow s hc j e).symm

theorem normalize_round_congr (ctx : Context) (s : Bool) (h : scaled c e = scaled d f) :
    (ctx.round s c e).normalize = (ctx.round s d f).normalize := by
  have hsame : (ctx.round false c e).toRat? = (ctx.round false d f).toRat? :=
    Context.toRat?_round_congr h false
  rcases ctx.round_sign c e with ⟨q, g, hround⟩ | hround <;>
  rcases ctx.round_sign d f with ⟨q', g', hround'⟩ | hround'
  · rw [hround, hround'] at hsame ⊢
    exact normalize_congr s (Option.some.inj hsame)
  · rw [hround, hround'] at hsame
    cases hsame
  · rw [hround, hround'] at hsame
    cases hsame
  · rw [hround, hround']

/-- **The display** depends on the sign and the number. -/
theorem display_congr (s : Bool) (h : scaled c e = scaled d f) :
    (finite s c e).display = (finite s d f).display := by
  by_cases hc : c = 0
  · obtain rfl := hc
    obtain rfl := (eq_zero_congr h).1 rfl
    rfl
  have hd := mt (eq_zero_congr h).2 hc
  have hmagnitude : (magnitudeContext.abs (finite s c e)).toRat? =
      (magnitudeContext.abs (finite s d f)).toRat? := Context.toRat?_round_congr h false
  have hrounded : (displayContext.round s c e).toRat? = (displayContext.round s d f).toRat? :=
    Context.toRat?_round_congr h s
  have hwhole : (finite s c e).isIntegral = (finite s d f).isIntegral := isWhole_congr h
  unfold display
  simp only [displayContext.plus_of_ne_zero s hc, displayContext.plus_of_ne_zero s hd]
  rw [isFinite_congr hmagnitude, isZero_congr hmagnitude, isBelowPower_congr hmagnitude,
    isBelowPower_congr hmagnitude, withTenPlaces_congr s hc h, hwhole, toInt_congr h s,
    isFinite_congr hrounded, normalize_round_congr displayContext s h]

/-! ## Signs -/

theorem signText_inj {s t : Bool} : signText s = signText t ↔ s = t := by
  cases s <;> cases t <;> simp [signText]

theorem plain_zero (s : Bool) (e : Int) : (finite s 0 e).plain = signText s ++ ['0'] := by
  rw [plain_congr s (show scaled 0 e = scaled 0 0 by simp [scaled])]
  cases s <;> rfl

theorem eq_of_toRat?_eq {s t : Bool} {x : ℚ} (hx : x ≠ 0) (hv : (finite s c e).toRat? = some x)
    (hw : (finite t d f).toRat? = some x) : s = t ∧ scaled c e = scaled d f := by
  have heq := Option.some.inj (hv.trans hw.symm)
  have hc := scaled_nonneg c e
  have hd := scaled_nonneg d f
  have hne : (if s then -scaled c e else scaled c e) ≠ 0 := by rwa [Option.some.inj hv]
  cases s <;> cases t <;> simp only [Bool.false_eq_true, if_true, if_false] at heq hne
  · exact ⟨rfl, heq⟩
  · exact absurd (by linarith) hne
  · exact absurd (by linarith) hne
  · exact ⟨rfl, neg_injective heq⟩

end Decimal

namespace Value

theorem exists_display_of_isWithinDisplay {v : Decimal} (h : (decimal v).IsWithinDisplay) :
    ∃ t, (decimal v).display = .ok t := by
  cases v with
  | infinite s => exact h.elim
  | nan s signaling payload => exact h.elim
  | finite s c e =>
    refine exists_display not_false fun hbeyond => ?_
    have hle := le_leadingExponent_of_isBeyondDisplay (s := s) hbeyond
    exact h.elim (ne_zero_of_isBeyondDisplay (s := s) hbeyond) fun hrange => by omega

/-- **The texts of equal decimals** are the same just if these are not zeros of opposite signs: a
zero shows its sign. -/
theorem texts_eq_iff {v w : Decimal} {x : ℚ} (hv : v.toRat? = some x) (hw : w.toRat? = some x) :
    ((decimal v).display = (decimal w).display ↔ (x = 0 → v.isNegative = w.isNegative)) ∧
    ((decimal v).plain = (decimal w).plain ↔ (x = 0 → v.isNegative = w.isNegative)) ∧
    (x = 0 → (decimal v).display = .ok (zeroText v.isNegative)) ∧
    ((decimal v).IsWithinDisplay → ∃ t, (decimal v).display = .ok t) := by
  cases v with
  | infinite s => cases hv
  | nan s signaling payload => cases hv
  | finite s c e =>
    cases w with
    | infinite t => cases hw
    | nan t signaling payload => cases hw
    | finite t d f =>
      by_cases hx : x = 0
      · subst hx
        obtain rfl := toRat?_eq_zero_iff.1 hv
        obtain rfl := toRat?_eq_zero_iff.1 hw
        refine ⟨?_, ?_, fun _ => rfl, exists_display_of_isWithinDisplay⟩
        · show Except.ok (zeroText s) = .ok (zeroText t) ↔ _
          rw [Except.ok.injEq, zeroText, zeroText, List.append_left_inj, signText_inj]
          simp [isNegative]
        · rw [plain, plain, plain_zero, plain_zero, Except.ok.injEq, List.append_left_inj,
            signText_inj]
          simp [isNegative]
      · obtain ⟨rfl, hscaled⟩ := eq_of_toRat?_eq hx hv hw
        have hplain : (decimal (finite s c e)).plain = (decimal (finite s d f)).plain :=
          congrArg Except.ok (plain_congr s hscaled)
        exact ⟨iff_of_true (display_congr s hscaled) fun hzero => absurd hzero hx,
          iff_of_true hplain fun hzero => absurd hzero hx, fun hzero => absurd hzero hx,
          exists_display_of_isWithinDisplay⟩

/-- A thousand by three decimals. -/
theorem texts_eq_thousand :
    let thousand : Decimal := .finite false 1 3
    thousand.toRat? = some 1000 ∧ (Decimal.finite false 100000 (-2)).toRat? = some 1000 ∧
      (decimal thousand).display = (decimal (.finite false 100000 (-2))).display ∧
      (decimal thousand).plain = (decimal (.finite false 100000 (-2))).plain ∧
      (decimal thousand).display = .ok (Text.ofString "1,000") := by
  intro thousand
  have hv : thousand.toRat? = some 1000 := by norm_num [thousand, Decimal.toRat?, scaled]
  have hw : (Decimal.finite false 100000 (-2)).toRat? = some 1000 := by
    norm_num [Decimal.toRat?, scaled]
  obtain ⟨hdisplay, hplain, -⟩ := texts_eq_iff hv hw
  exact ⟨hv, hw, hdisplay.2 fun _ => rfl, hplain.2 fun _ => rfl, by decide +kernel⟩

/-- The zero with a minus sign is shown with it. -/
theorem texts_of_negative_zero :
    let zero : Decimal := .finite true 0 0
    zero.toRat? = Decimal.zero.toRat? ∧
      (decimal zero).display = .ok (Text.ofString "-0.0000000000e+0") ∧
      (decimal .zero).display = .ok (Text.ofString "0.0000000000e+0") ∧
      (decimal zero).plain = .ok (Text.ofString "-0") ∧
      (decimal .zero).plain = .ok (Text.ofString "0") := by
  refine ⟨?_, by decide, by decide, by decide, by decide⟩
  simp [Decimal.zero, Decimal.ofNat, Decimal.toRat?, scaled]

end Value

end DeskCalculator

import DeskCalculator.Proofs.Decimal.Rounding
import DeskCalculator.Proofs.Value.Text
import DeskCalculator.Value.Display

/-!
# Values that cannot be displayed

The display shows twelve digits and exponents up to 999999. A decimal that these cannot hold, even
after rounding, is a fault (`Decimal.display_eq_error_iff`), and so is an exact integer without a
text.
-/

namespace DeskCalculator

theorem isWide_magnitudeContext : magnitudeContext.IsWide := ⟨by decide, by decide⟩

theorem isWide_displayContext : displayContext.IsWide := ⟨by decide, by decide⟩

namespace Decimal

/-- A finite decimal from `9.999999999995E+999999` on, in magnitude. -/
def IsBeyondDisplay : Decimal → Prop
  | finite _ c e => scaled 9999999999995 999987 ≤ scaled c e
  | _ => False

theorem overflowBound_displayContext :
    displayContext.overflowBound = scaled 9999999999995 999987 := rfl

theorem le_overflowBound_magnitudeContext :
    scaled 9999999999995 999987 ≤ magnitudeContext.overflowBound := by
  have hscale : scaled 9999999999995 999987 = scaled (9999999999995 * 10 ^ 16) 999971 := by
    rw [scaled_mul_pow]
    rfl
  rw [hscale]
  exact scaled_le_scaled_iff.2 (by decide)

theorem ne_zero_of_isBeyondDisplay {s : Bool} {c : Nat} {e : Int}
    (h : (finite s c e).IsBeyondDisplay) : c ≠ 0 := by
  rintro rfl
  have hpos : 0 < scaled 9999999999995 999987 := scaled_pos (by decide) _
  have hzero : scaled 0 e = 0 := by simp [scaled]
  have hle : scaled 9999999999995 999987 ≤ scaled 0 e := h
  exact absurd (hle.trans_eq hzero) (not_le.2 hpos)

theorem le_leadingExponent_of_isBeyondDisplay {s : Bool} {c : Nat} {e : Int}
    (h : (finite s c e).IsBeyondDisplay) : 999999 ≤ leadingExponent c e := by
  have hbound : 10 ^ displayContext.maxExponent ≤ displayContext.overflowBound :=
    Context.le_overflowBound _
  exact (le_leadingExponent_iff (ne_zero_of_isBeyondDisplay h)).2 (hbound.trans h)

theorem magnitude_of_isBeyondDisplay {s : Bool} {c : Nat} {e : Int}
    (h : (finite s c e).IsBeyondDisplay) (hfinite : (magnitudeContext.abs (finite s c e)).isFinite) :
    (magnitudeContext.abs (finite s c e)).isZero = false ∧
      ∀ k ≤ 999999, (magnitudeContext.abs (finite s c e)).isBelowPower k = false := by
  have hlead := le_leadingExponent_of_isBeyondDisplay h
  cases hround : magnitudeContext.round false c e with
  | finite t q f =>
    have hmin : magnitudeContext.minExponent ≤ leadingExponent c e :=
      Int.le_trans (by decide) hlead
    obtain ⟨hq, hle⟩ := Context.le_leadingExponent_of_round isWide_magnitudeContext
      (ne_zero_of_isBeyondDisplay h) hmin hround
    simp only [Context.abs, hround]
    refine ⟨?_, fun k hk => ?_⟩
    · cases q with
      | zero => exact absurd rfl hq
      | succ q => rfl
    · have hk : ¬ leadingExponent q f < k := by omega
      simp [isBelowPower, hq, hk]
  | infinite t => simp [Context.abs, hround, isFinite] at hfinite
  | nan t u p => simp [Context.abs, hround, isFinite] at hfinite

theorem isFinite_plus_iff {s : Bool} {c : Nat} {e : Int} :
    (displayContext.plus (finite s c e)).isFinite ↔ ¬ (finite s c e).IsBeyondDisplay := by
  by_cases hc : c = 0
  · have hbeyond : ¬ (finite s c e).IsBeyondDisplay := fun h => ne_zero_of_isBeyondDisplay h hc
    simp [Context.plus, Context.round, hc, isFinite]
    rwa [hc] at hbeyond
  · show (displayContext.round _ c e).isFinite ↔ ¬ scaled _ _ ≤ _
    rw [Context.isFinite_round_iff isWide_displayContext hc, overflowBound_displayContext,
      not_le]

/-- **The display** cannot show a decimal when it is beyond the display. -/
theorem display_eq_error_iff {d : Decimal} {fault : Fault} :
    d.display = .error fault ↔ fault = .displayOverflow ∧ d.IsBeyondDisplay := by
  cases d with
  | infinite s => simp [display, IsBeyondDisplay]
  | nan s signaling payload => simp [display, IsBeyondDisplay]
  | finite s c e =>
    unfold display
    simp only
    by_cases hfinite : (magnitudeContext.abs (finite s c e)).isFinite
    · by_cases hbeyond : (finite s c e).IsBeyondDisplay
      · obtain ⟨hzero, hpower⟩ := magnitude_of_isBeyondDisplay hbeyond hfinite
        have hplus : ¬ (displayContext.plus (finite s c e)).isFinite := by
          rw [isFinite_plus_iff, not_not]
          exact hbeyond
        simp [hfinite, hbeyond, hzero, hpower, hplus, eq_comm]
      · -- every notation gives a text
        have hplus := isFinite_plus_iff.2 hbeyond
        simp only [hfinite, hbeyond, hplus, Bool.not_true, Bool.false_eq_true, if_false, if_true,
          and_false, iff_false]
        intro h
        split at h
        · cases h
        · split at h
          · cases h
          · split at h
            · cases h
            · cases h
    · have hc : c ≠ 0 := by
        rintro rfl
        exact hfinite rfl
      have hle := Context.overflowBound_le_of_round isWide_magnitudeContext hc hfinite
      have hbeyond : (finite s c e).IsBeyondDisplay := le_overflowBound_magnitudeContext.trans hle
      simp [hfinite, hbeyond, eq_comm]

end Decimal

namespace Value

def IsBeyondDisplay : Value → Prop
  | exact _ => False
  | decimal d => d.IsBeyondDisplay

theorem plain_of_isTooLong {v : Value} (h : v.IsTooLong) : v.plain = .error .integerTooLong := by
  cases v with
  | exact n => exact text_of_isTooLong h
  | decimal d => exact h.elim

theorem exists_plain {v : Value} (h : ¬ v.IsTooLong) : ∃ t, v.plain = .ok t := by
  cases v with
  | exact n => exact exists_text h
  | decimal d => exact ⟨d.plain, rfl⟩

theorem display_of_isBeyondDisplay {v : Value} (h : v.IsBeyondDisplay) :
    v.display = .error .displayOverflow := by
  cases v with
  | exact n => exact h.elim
  | decimal d => exact Decimal.display_eq_error_iff.2 ⟨rfl, h⟩

theorem exists_display {v : Value} (hlong : ¬ v.IsTooLong) (hbeyond : ¬ v.IsBeyondDisplay) :
    ∃ t, v.display = .ok t := by
  cases v with
  | exact n =>
    by_cases hsmall : n.natAbs < Nat.pow 10 21
    · exact ⟨_, if_pos hsmall⟩
    · obtain ⟨t, ht⟩ := exists_text hlong
      exact ⟨t, (if_neg hsmall).trans ht⟩
  | decimal d =>
    cases hd : d.display with
    | ok t => exact ⟨t, hd⟩
    | error fault => exact absurd (Decimal.display_eq_error_iff.1 hd).2 hbeyond

end Value

end DeskCalculator

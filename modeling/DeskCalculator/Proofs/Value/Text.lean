import DeskCalculator.Proofs.Numeral.DigitCount
import DeskCalculator.Value.Basic

/-!
# Values without a text

Every decimal has a text, but an exact integer has one up to 4300 digits only.
-/

namespace DeskCalculator.Value

/-- An exact integer of more than 4300 digits. -/
def IsTooLong : Value → Prop
  | exact n => 10 ^ Text.Integer.maxDigits ≤ n.natAbs
  | decimal _ => False

theorem text_of_isTooLong {v : Value} (h : v.IsTooLong) : v.text = .error .integerTooLong := by
  cases v with
  | exact n =>
    have hlong : Text.Integer.isTooLong n := Text.Integer.isTooLong_iff.2 h
    simp [text, Text.Integer.write?, hlong]
  | decimal d => exact h.elim

theorem exists_text {v : Value} (h : ¬ v.IsTooLong) : ∃ t, v.text = .ok t := by
  cases v with
  | exact n =>
    have hlong : ¬ Text.Integer.isTooLong n := fun hlong => h (Text.Integer.isTooLong_iff.1 hlong)
    exact ⟨Text.ofInt n, by simp [text, Text.Integer.write?, hlong]⟩
  | decimal d => exact ⟨d.text, rfl⟩

theorem text_eq_error_iff {v : Value} {fault : Fault} :
    v.text = .error fault ↔ fault = .integerTooLong ∧ v.IsTooLong := by
  by_cases h : v.IsTooLong
  · simp [text_of_isTooLong h, h, eq_comm]
  · obtain ⟨t, ht⟩ := exists_text h
    simp [ht, h]

end DeskCalculator.Value

import DeskCalculator.Keypad
import DeskCalculator.Proofs.Decimal.HalfUp
import DeskCalculator.Proofs.Decimal.SameNumber
import DeskCalculator.Proofs.Evaluation.Numerals

/-!
# The two readings of a typed number

What is typed is read as a number by the keys of the memory and as an expression by an evaluation.
Where both succeed, the evaluation gives the number rounded to the precision of the desk, a half
going up, but for one spelling: behind a plus the exponent of a number is read as a sum with the
constant e (`compute_of_shownNumber`).
-/

namespace DeskCalculator

open Decimal

/-! ## A signed numeral -/

theorem Tree.value_of_result {desk : Desk} {e : Tree} {v : Value} (h : e.result desk = .ok v) :
    e.value desk = .ok v := by
  unfold result at h
  cases hvalue : e.value desk with
  | error failure =>
    rw [hvalue] at h
    cases h
  | ok x =>
    rw [hvalue] at h
    cases x with
    | exact n => exact h
    | decimal d =>
      change (if d.isFinite then _ else _) = _ at h
      split at h
      · exact h
      · cases h

theorem Tree.toRat?_of_value_signed {desk : Desk} {s : Bool} {w : Text} {c k : Nat} {v : Value}
    (hw : IsNumeral w c k) (hstorable : isStorable c (-(k : Int)))
    (h : (Tree.signed s w).value desk = .ok v) :
    v.toRat? = (desk.context.plus (finite s c (-(k : Int)))).toRat? := by
  have hnumber : Operations.number desk w =
      .decimal (desk.context.plus (finite false c (-(k : Int)))) := by
    rw [Operations.number, hw.read? hstorable]
    rfl
  cases s with
  | false =>
    cases h
    rw [hnumber]
    rfl
  | true =>
    cases h
    rw [hnumber]
    have hkeeps := Context.keeps_plus desk.isModerate_context (finite false c (-(k : Int)))
    rw [Context.toRat?_plus, Context.toRat?_round]
    exact Context.toRat?_minus hkeeps

theorem Decimal.head?_signed_ne_plus (s : Bool) {w : Text} {c k : Nat} (hw : IsNumeral w c k) :
    (signText s ++ w).head? ≠ some '+' := by
  cases s with
  | true => simp [signText]
  | false =>
    intro hhead
    have hpart := Token.isNumberPart_of_isWrittenAs hw.isWrittenAs '+' (List.mem_of_mem_head? hhead)
    exact absurd hpart (by decide)

/-! ## What is typed -/

namespace Keypad

variable {k : Keypad} {x v : Value}

theorem exists_read?_of_shownNumber (hmode : k.mode = .editing) (h : k.shownNumber = .ok x) :
    ∃ s c e, x = .decimal (finite s c e) ∧
      read? (Text.trim (k.buffer.filter (· ≠ ','))) = some (finite s c e) := by
  unfold shownNumber at h
  rw [hmode] at h
  simp only at h
  split at h
  · rename_i d hread
    split at h
    · rename_i hfinite
      cases h
      cases d with
      | finite s c e => exact ⟨s, c, e, rfl, hread⟩
      | infinite s => cases hfinite
      | nan s signaling payload => cases hfinite
    · cases h
  · cases h

/-- **A typed number is read alike, or as a sum.** If what is typed is read as a number and also has
a value, and there is no plus in front, then the value is this number rounded in the context of the
desk; unless it is too small for the full precision, it is rounded half up to the precision. Behind
a plus it has an exponent with a sign, and the value is that of the sum of the digits, the constant
e and the digits of the exponent. -/
theorem compute_of_shownNumber (hmode : k.mode = .editing) (hshown : k.shownNumber = .ok x)
    (hv : k.desk.compute k.buffer = .ok v) :
    ∃ m y, x = .decimal m ∧ m.toRat? = some y ∧
      (((Text.trim k.buffer).head? ≠ some '+' ∧
          v.toRat? = (k.desk.context.plus m).toRat? ∧
          ((y ≠ 0 → 10 ^ k.desk.context.minExponent ≤ |y|) →
            v.toRat? = some (roundHalfUp k.desk.precision.digits y))) ∨
        ∃ e, IsPlusScaled (Text.trim k.buffer) e ∧ e.result k.desk = .ok v) := by
  obtain ⟨s, c, e, rfl, hread⟩ := exists_read?_of_shownNumber hmode hshown
  obtain ⟨tokens, tree, heval⟩ := Desk.exists_evaluation hv
  obtain ⟨front, w, back, hbuffer, hfront, hback, hw, hstorable⟩ := heval.exists_numeral hread
  have htrim : Text.trim k.buffer = w := hbuffer ▸ hw.trim_eq hfront hback
  rw [hbuffer] at heval
  have hresult := heval.result_eq
  refine ⟨_, _, rfl, rfl, ?_⟩
  rcases heval.tree_cases hfront hback hw with ⟨_, u, _, k', rfl, hu, heq, rfl⟩ | hscaled
  · cases heq
    have hnumber := Tree.toRat?_of_value_signed hu hstorable (Tree.value_of_result hresult)
    have hround := k.desk.context.toRat?_plus s c (-(k' : Int))
    refine .inl ⟨?_, hnumber, fun hmin => ?_⟩
    · rw [htrim]
      exact head?_signed_ne_plus s hu
    · obtain ⟨z, hz⟩ := Value.exists_toRat? heval.isFinite
      have hfinite : (k.desk.context.round s c (-(k' : Int))).isFinite := by
        rw [← isSome_toRat?, ← hround, ← hnumber, hz]
        rfl
      rw [hnumber, hround]
      exact (k.desk.context.rounds_round s c _).toRat? k.desk.isWide_context rfl hmin hfinite
  · exact .inr ⟨tree, htrim ▸ hscaled, hresult⟩

/-- At eight digits `1234567.85` between blanks is rounded, the half up. -/
theorem compute_of_shownNumber_rounded :
    let k : Keypad :=
      { desk := { precision := { digits := 8 } }, buffer := Text.ofString " 1234567.85 " }
    k.shownNumber = .ok (.decimal (.finite false 123456785 (-2))) ∧
      k.desk.compute k.buffer = .ok (.decimal (.finite false 12345679 (-1))) ∧
      (Value.decimal (.finite false 12345679 (-1))).toRat? =
        some (roundHalfUp 8 (scaled 123456785 (-2))) := by
  intro k
  have hshown : k.shownNumber = .ok (.decimal (.finite false 123456785 (-2))) := by decide +kernel
  have hv : k.desk.compute k.buffer = .ok (.decimal (.finite false 12345679 (-1))) := by
    decide +kernel
  refine ⟨hshown, hv, ?_⟩
  obtain ⟨m, y, ⟨⟩, ⟨⟩, ⟨-, -, hround⟩ | ⟨e, hscaled, -⟩⟩ := compute_of_shownNumber rfl hshown hv
  · refine hround fun _ => ?_
    have hone : (1 : ℚ) ≤ |scaled 123456785 (-2)| := by norm_num [scaled]
    exact (zpow_le_one_of_nonpos₀ (by norm_num) (by decide)).trans hone
  · have htrim : Text.trim k.buffer = Text.ofString "1234567.85" := by decide +kernel
    rw [htrim] at hscaled
    cases hscaled

/-- Behind a plus, `1e-5` is the number 0.00001 for the memory and 1 + e - 5 for an evaluation. -/
theorem shownNumber_ne_compute :
    let k : Keypad := { buffer := Text.ofString "+1e-5" }
    k.shownNumber = .ok (.decimal (.finite false 1 (-5))) ∧
      k.desk.compute k.buffer =
        .ok (.decimal (.finite true 1281718171540954764639712528647338 (-33))) ∧
      (Value.decimal (.finite true 1281718171540954764639712528647338 (-33))).toRat? ≠
        some (roundHalfUp k.desk.precision.digits (scaled 1 (-5))) := by
  intro k
  refine ⟨by decide +kernel, by decide +kernel, fun heq => ?_⟩
  have hnonneg := roundHalfUp_nonneg k.desk.precision.digits (scaled_nonneg 1 (-5))
  have hpos := scaled_pos (show 1281718171540954764639712528647338 ≠ 0 by decide) (-33)
  have hvalue : -scaled 1281718171540954764639712528647338 (-33) = _ := Option.some.inj heq
  linarith

end Keypad

end DeskCalculator

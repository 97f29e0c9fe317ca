import DeskCalculator.Proofs.Decimal.SameNumber
import DeskCalculator.Proofs.Expression.Splicing
import DeskCalculator.Proofs.Stack.Results
import DeskCalculator.Proofs.Stack.TreeRun

/-!
# A postfix sign behind a numeral

A factorial and a hundredth depend on the number of their operand alone, not on the zeros at its end
(`decimalFactorial_congr`, `told_percent_congr`). So a sign behind the numeral of a number gives what
it gives on the number itself. But a minus before the numeral comes after the sign. This makes no
difference to a hundredth (`told_negate_percent`), while the factorial is that of the opposite number
(`told_marked`).
-/

namespace DeskCalculator

open Decimal (scaled finite)

/-- What an outcome is compared by: the number, or the kind of the problem. -/
def told (r : Except Failure Value) : Except (Option ProblemKind) (Option ℚ) :=
  (r.mapError Failure.kind?).map Value.toRat?

def Tree.answer : Tree := .constant ['a', 'n', 's']

theorem Tree.value_answer (desk : Desk) : Tree.answer.value desk = .ok desk.answer := rfl

theorem told_eq_of_mapError {r r' : Except Failure Value}
    (h : r.mapError Failure.kind? = r'.mapError Failure.kind?) : told r = told r' :=
  congrArg (Except.map Value.toRat?) h

theorem told_result (desk : Desk) (e : Tree) :
    told (e.result desk) = (told (e.value desk)).bind fun
      | some x => .ok (some x)
      | none => .error (some .mathError) := by
  unfold Tree.result
  cases e.value desk with
  | error failure => rfl
  | ok v =>
    cases v with
    | exact n => rfl
    | decimal d => cases d <;> rfl

theorem told_result_congr {desk : Desk} {e e' : Tree}
    (h : told (e.value desk) = told (e'.value desk)) :
    told (e.result desk) = told (e'.result desk) := by
  rw [told_result, told_result, h]

namespace Operations

variable {desk : Desk} {c d : Nat} {e f : Int}

theorem decimalFactorial_congr (h : scaled c e = scaled d f) (s : Bool) :
    decimalFactorial desk (finite s c e) = decimalFactorial desk (finite s d f) := by
  have hzero : (finite s c e).isZero = (finite s d f).isZero := by
    have hiff := Decimal.eq_zero_congr h
    cases c <;> cases d <;> simp_all [Decimal.isZero]
  have hwhole : (finite s c e).isIntegral = (finite s d f).isIntegral := Decimal.isWhole_congr h
  have hdouble : (finite s c e).toDouble = (finite s d f).toDouble :=
    congrArg Except.ok (Double.ofScientific_congr s h)
  unfold decimalFactorial
  rw [hzero, hwhole, hdouble, Decimal.toInt_congr h]
  rfl

theorem factorial_congr (h : scaled c e = scaled d f) (s : Bool) :
    (factorial desk (.decimal (finite s c e))).mapError Failure.kind? =
      (factorial desk (.decimal (finite s d f))).mapError Failure.kind? := by
  have hnamed (d : Decimal) : factorial desk (.decimal d) =
      named (.ok (d.text ++ ['!'])) (decimalFactorial desk d) := rfl
  rw [hnamed, hnamed, decimalFactorial_congr h]
  cases decimalFactorial desk (finite s d f) <;> rfl

theorem told_percent_congr (h : scaled c e = scaled d f) (s : Bool) :
    told (percent desk (.decimal (finite s c e))) = told (percent desk (.decimal (finite s d f))) :=
  congrArg Except.ok (Context.toRat?_div_congr h s _)

theorem told_negate_percent :
    told ((percent desk (.decimal (finite false c e))).map (negate desk)) =
      told (percent desk (.decimal (finite true c e))) := by
  have hkeeps := Context.keeps_div desk.isModerate_context (finite false c e) (Decimal.ofNat 100)
  exact congrArg Except.ok
    ((Context.toRat?_minus hkeeps).trans (Context.toRat?_div_negative c e 100 0).symm)

end Operations

/-! ## Trees -/

namespace Tree

/-- A numeral with a sign behind it, and a minus before it if it is negative. The sign binds more
tightly. -/
def marked (negative : Bool) (sign : PostfixSign) (w : Text) : Tree :=
  if negative then .negate (.postfixed sign (.number w)) else .postfixed sign (.number w)

/-- What such a numeral is in terms of the last answer that it writes: a minus does not matter to a
hundredth, but a factorial is that of the opposite number. -/
def markedAnswer (negative : Bool) (sign : PostfixSign) : Tree :=
  if negative ∧ sign = .factorial then .negate (.postfixed .factorial (.negate answer))
  else .postfixed sign answer

theorem value_negate (desk : Desk) (e : Tree) :
    (Tree.negate e).value desk = (e.value desk).map (Operations.negate desk) := by
  rw [Tree.value]
  cases e.value desk <;> rfl

section Numeral

variable {desk : Desk} {w : Text} {c d : Nat} {e f : Int}
  (hnumber : Operations.number desk w = .decimal (finite false d f)) (h : scaled d f = scaled c e)
include hnumber h

theorem told_percent_number (s : Bool) (hanswer : desk.answer = .decimal (finite s c e)) :
    told ((marked s .percent w).value desk) = told ((markedAnswer s .percent).value desk) := by
  have hright : (markedAnswer s .percent).value desk =
      Operations.percent desk (.decimal (finite s c e)) := by
    rw [markedAnswer, if_neg (by simp), ← hanswer]
    rfl
  have hleft : (Tree.postfixed .percent (.number w)).value desk =
      Operations.percent desk (.decimal (finite false d f)) := by
    rw [← hnumber]
    rfl
  rw [hright]
  cases s with
  | false => exact (congrArg told hleft).trans (Operations.told_percent_congr h false)
  | true =>
    rw [marked, if_pos rfl, value_negate, hleft, Operations.told_negate_percent]
    exact Operations.told_percent_congr h true

theorem mapError_factorial_number :
    ((Tree.postfixed .factorial (.number w)).value desk).mapError Failure.kind? =
      (Operations.factorial desk (.decimal (finite false c e))).mapError Failure.kind? := by
  rw [← Operations.factorial_congr h, ← hnumber]
  rfl

variable (hc : desk.context.Represents c e)
include hc

theorem told_factorial_number (s : Bool) (hanswer : desk.answer = .decimal (finite s c e)) :
    told ((marked s .factorial w).value desk) = told ((markedAnswer s .factorial).value desk) := by
  have hleft := mapError_factorial_number hnumber h
  cases s with
  | false =>
    refine told_eq_of_mapError (hleft.trans ?_)
    rw [← hanswer]
    rfl
  | true =>
    obtain ⟨c', e', hround, hscaled, -⟩ := Context.round_of_scaled_eq hc rfl false
    have hopposite : (Tree.negate answer).value desk = .ok (.decimal (finite false c' e')) := by
      rw [value_negate, value_answer, hanswer]
      exact congrArg (fun d => Except.ok (Value.decimal d)) hround
    have hright : (Tree.postfixed .factorial (.negate answer)).value desk =
        Operations.factorial desk (.decimal (finite false c' e')) := by
      rw [Tree.value, hopposite]
      rfl
    rw [marked, markedAnswer, if_pos rfl, if_pos ⟨rfl, rfl⟩, value_negate, value_negate, hright]
    rw [← Operations.factorial_congr hscaled] at hleft
    refine told_eq_of_mapError ?_
    generalize (Tree.postfixed .factorial (.number w)).value desk = r at hleft ⊢
    generalize Operations.factorial desk (.decimal (finite false c' e')) = r' at hleft ⊢
    cases r <;> cases r' <;> simp_all [Except.mapError, Except.map]

/-- **A sign behind the numeral** of the last answer. -/
theorem told_marked (s : Bool) (sign : PostfixSign)
    (hanswer : desk.answer = .decimal (finite s c e)) :
    told ((marked s sign w).result desk) = told ((markedAnswer s sign).result desk) := by
  refine told_result_congr ?_
  cases sign with
  | factorial => exact told_factorial_number hnumber h hc s hanswer
  | percent => exact told_percent_number hnumber h s hanswer

end Numeral

end Tree

end DeskCalculator

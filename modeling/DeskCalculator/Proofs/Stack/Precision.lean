import DeskCalculator.Proofs.Stack.Results

/-!
# The digits of a result

An evaluation rounds every number that it comes to: the numbers that are written and the constants
just as the results of operators and functions. So no finite decimal on the stack has more digits
than the precision of the desk, but for the last answer, which may come from a time of another
precision and is stacked as it is (`digits_of_run`).
-/

namespace DeskCalculator

/-- A value that is no finite decimal, or one with at most this many digits. -/
def Value.HasDigitsAtMost (digits : Nat) : Value → Prop
  | .decimal (.finite _ c _) => Numeral.digitCount c ≤ digits
  | _ => True

theorem Desk.Keeps.hasDigitsAtMost {desk : Desk} {v : Value} (h : desk.Keeps v) :
    v.HasDigitsAtMost desk.precision.digits := by
  match v with
  | .decimal (.finite s c e) => exact h.digitCount_le
  | .exact _ | .decimal (.infinite _) | .decimal (.nan ..) => trivial

namespace Stack

variable {desk : Desk} {items : List Item}

theorem digits_of_gives {item : Item} {operands : List Value} {v : Value}
    (h : Gives desk item operands v) :
    v.HasDigitsAtMost desk.precision.digits ∨ item.isAnswer ∧ v = desk.answer :=
  (keeps_of_gives h).imp_left Desk.Keeps.hasDigitsAtMost

/-- **The digits of a result.** An item that does not fail puts on top of what it leaves of the
stack a value that fits the precision, or is `ans` and puts there the last answer. So on the stack
after each item of a list, failed ones included, are no other values, and the value of a run is an
integer, a finite decimal that fits the precision, or the last answer. -/
theorem digits_of_run (desk : Desk) (items : List Item) :
    (∀ item stack stack', feed desk item stack = .ok stack' →
      ∃ v rest, stack' = v :: rest ∧ rest <:+ stack ∧
        (v.HasDigitsAtMost desk.precision.digits ∨ item.isAnswer ∧ v = desk.answer)) ∧
    (∀ step ∈ trace desk items [], ∀ v ∈ step.stack,
      v.HasDigitsAtMost desk.precision.digits ∨
        (∃ item ∈ items, item.isAnswer) ∧ v = desk.answer) ∧
    ∀ v, run desk items = .ok v →
      (∃ n, v = .exact n) ∨
      (∃ s c e, v = .decimal (.finite s c e) ∧ Numeral.digitCount c ≤ desk.precision.digits) ∨
      (∃ item ∈ items, item.isAnswer) ∧ v = desk.answer := by
  have hgives : ∀ item ∈ items, ∀ operands v, Gives desk item operands v →
      v.HasDigitsAtMost desk.precision.digits ∨
        (∃ item ∈ items, item.isAnswer) ∧ v = desk.answer := by
    intro item hitem operands v hv
    exact (digits_of_gives hv).imp_right fun h => ⟨⟨item, hitem, h.1⟩, h.2⟩
  refine ⟨?_, forall_mem_of_trace hgives (by simp), ?_⟩
  · intro item stack stack' h
    obtain ⟨operands, rest, v, rfl, rfl, hv⟩ := feed_eq_ok_iff.1 h
    exact ⟨v, rest, rfl, List.suffix_append _ _, digits_of_gives hv⟩
  · intro v h
    obtain ⟨hfeed, hfinite⟩ := run_eq_ok_iff.1 h
    rcases forall_mem_of_feedAll hgives (by simp) hfeed v List.mem_cons_self with hdigits | hanswer
    · match v with
      | .exact n => exact .inl ⟨n, rfl⟩
      | .decimal (.finite s c e) => exact .inr (.inl ⟨s, c, e, rfl, hdigits⟩)
      | .decimal (.infinite _) | .decimal (.nan ..) => cases hfinite
    · exact .inr (.inr hanswer)

end Stack

end DeskCalculator

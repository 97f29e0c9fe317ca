import DeskCalculator.Evaluation
import DeskCalculator.Proofs.Stack.Results

/-!
# What is computed can be stored

Every decimal on the stack of a run is in the range of the decimals that can be stored, if the last
answer of the desk is: whatever else an item stacks is a result of the context of the desk
(`Stack.inRange_of_gives`). Integers may have any size. So the value of a text is in range
(`Desk.inRange_compute`).
-/

namespace DeskCalculator

/-- An integer of any size, or a decimal that can be stored. -/
def Value.IsInRange : Value → Prop
  | .exact _ => True
  | .decimal d => d.IsStorable

def YieldsInRange {ε : Type} (r : Except ε Value) : Prop := ∀ v, r = .ok v → v.IsInRange

theorem Desk.Keeps.isInRange {desk : Desk} {v : Value} (h : desk.Keeps v) : v.IsInRange := by
  cases v with
  | exact n => trivial
  | decimal d => exact Context.Keeps.isStorable desk.isModerate_context h

/-! ## Runs -/

namespace Stack

variable {desk : Desk} {stack stack' : List Value}

def IsInRange (stack : List Value) : Prop := ∀ v ∈ stack, v.IsInRange

theorem inRange_of_gives (hanswer : desk.answer.IsInRange) {item : Item} {operands : List Value}
    {v : Value} (h : Gives desk item operands v) : v.IsInRange := by
  rcases keeps_of_gives h with hkeeps | ⟨-, rfl⟩
  · exact hkeeps.isInRange
  · exact hanswer

theorem inRange_feedAll (hanswer : desk.answer.IsInRange) {items : List Item}
    (hstack : IsInRange stack) (h : feedAll desk items stack = .ok stack') : IsInRange stack' :=
  forall_mem_of_feedAll (fun _ _ _ _ => inRange_of_gives hanswer) hstack h

theorem inRange_run (hanswer : desk.answer.IsInRange) (items : List Item) :
    YieldsInRange (run desk items) := by
  intro v h
  have hstack := inRange_feedAll hanswer (by simp [IsInRange]) (run_eq_ok_iff.1 h).1
  exact hstack v List.mem_cons_self

end Stack

/-- **The value of a text** is in range, if the last answer is. -/
theorem Desk.inRange_compute {desk : Desk} (hanswer : desk.answer.IsInRange) (t : Text) :
    YieldsInRange (desk.compute t) := by
  unfold compute
  split
  · exact Stack.inRange_run hanswer _
  · nofun

end DeskCalculator

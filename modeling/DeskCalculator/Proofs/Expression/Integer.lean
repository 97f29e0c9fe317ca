import DeskCalculator.Proofs.Decimal.Reading
import DeskCalculator.Proofs.Stack.TreeValue
import Mathlib.Algebra.Ring.Int.Defs
import Mathlib.Data.Nat.Choose.Basic

/-!
# Expressions over the integers

The expressions that have a value over the unbounded integers: literals and the last answer, the
four operators of arithmetic and the power, magnitudes, factorials, combinations and arrangements.
`IntegerExpression.integer` is this value; it says nothing of the calculator. It is lacking where an
operation within the expression has no result (`integer_eq_none_iff`): division by zero, the
factorial of a negative integer, a power with a negative exponent.
-/

namespace DeskCalculator

structure IntegerLiteral where
  digits : Text
  ne_nil : digits ≠ []
  isDigit : ∀ c ∈ digits, c.isDigit

def IntegerLiteral.ofNat (n : Nat) : IntegerLiteral :=
  ⟨Text.ofNat n, Text.ofNat_ne_nil n, fun _ hc => Text.isDigit_of_mem_ofNat hc⟩

def IntegerLiteral.value (l : IntegerLiteral) : Nat := Text.toNat l.digits

inductive IntegerExpression where
  | literal (l : IntegerLiteral)
  | answer
  | negate (operand : IntegerExpression)
  | magnitude (operand : IntegerExpression)
  | factorial (operand : IntegerExpression)
  | binary (operator : BinaryOperator) (left right : IntegerExpression)
  | choose (n r : IntegerExpression)
  | arrange (n r : IntegerExpression)

/-! ## Values over the integers -/

/-- What an operator makes of two integers. Division drops the fraction. -/
def BinaryOperator.integer? : BinaryOperator → Int → Int → Option Int
  | plus, m, n => some (m + n)
  | minus, m, n => some (m - n)
  | times, m, n => some (m * n)
  | divide, m, n => if n = 0 then none else some (m.tdiv n)
  | power, m, n => if n < 0 then none else some (m ^ n.toNat)

def factorial? (n : Int) : Option Int := if n < 0 then none else some n.toNat.factorial

def combinations (n r : Int) : Int := if 0 ≤ r ∧ r ≤ n then n.toNat.choose r.toNat else 0

def arrangements (n r : Int) : Int := if 0 ≤ r ∧ r ≤ n then n.toNat.descFactorial r.toNat else 0

namespace IntegerExpression

/-- The value over the integers, if there is one. -/
def integer (last : Int) : IntegerExpression → Option Int
  | literal l => some l.value
  | answer => some last
  | negate e => (integer last e).map fun n => -n
  | magnitude e => (integer last e).map fun n => n.natAbs
  | factorial e => (integer last e).bind factorial?
  | binary op a b => (integer last a).bind fun m => (integer last b).bind fun n => op.integer? m n
  | choose n r => (integer last n).bind fun x => (integer last r).map fun y => combinations x y
  | arrange n r => (integer last n).bind fun x => (integer last r).map fun y => arrangements x y

/-- The expression with all expressions within it. -/
def parts : IntegerExpression → List IntegerExpression
  | literal l => [literal l]
  | answer => [answer]
  | negate e => negate e :: parts e
  | magnitude e => magnitude e :: parts e
  | factorial e => factorial e :: parts e
  | binary op a b => binary op a b :: (parts a ++ parts b)
  | choose n r => choose n r :: (parts n ++ parts r)
  | arrange n r => arrange n r :: (parts n ++ parts r)

/-- The operation of an expression has operands and no result. -/
def LacksResult (last : Int) : IntegerExpression → Prop
  | binary .divide _ b => b.integer last = some 0
  | binary .power _ b => ∃ n < 0, b.integer last = some n
  | factorial e => ∃ n < 0, e.integer last = some n
  | _ => False

theorem self_mem_parts (e : IntegerExpression) : e ∈ e.parts := by cases e <;> simp [parts]

theorem parts_subset {e part : IntegerExpression} (h : part ∈ e.parts) : part.parts ⊆ e.parts := by
  induction e with
  | literal l | answer =>
    rw [parts, List.mem_singleton] at h
    rw [h]
    exact List.Subset.refl _
  | negate e ih | magnitude e ih | factorial e ih =>
    rcases List.mem_cons.1 h with rfl | h
    · exact List.Subset.refl _
    · exact List.Subset.trans (ih h) (List.subset_cons_self _ _)
  | binary op a b iha ihb | choose a b iha ihb | arrange a b iha ihb =>
    rcases List.mem_cons.1 h with rfl | h
    · exact List.Subset.refl _
    · rcases List.mem_append.1 h with h | h
      · exact List.subset_cons_of_subset _ (List.subset_append_of_subset_left _ (iha h))
      · exact List.subset_cons_of_subset _ (List.subset_append_of_subset_right _ (ihb h))

theorem integer?_eq_none_iff {op : BinaryOperator} {m n : Int} :
    op.integer? m n = none ↔ op = .divide ∧ n = 0 ∨ op = .power ∧ n < 0 := by
  cases op <;> simp [BinaryOperator.integer?]

theorem factorial?_eq_none_iff {n : Int} : factorial? n = none ↔ n < 0 := by simp [factorial?]

/-- **There is no value** exactly where some operation within the expression has no result. -/
theorem integer_eq_none_iff {last : Int} (e : IntegerExpression) :
    e.integer last = none ↔ ∃ part ∈ e.parts, part.LacksResult last := by
  induction e with
  | literal l => simp [integer, parts, LacksResult]
  | answer => simp [integer, parts, LacksResult]
  | negate e ih | magnitude e ih =>
    simp only [parts, List.mem_cons, exists_eq_or_imp, ← ih]
    simp [integer, LacksResult]
  | factorial e ih =>
    simp only [parts, List.mem_cons, exists_eq_or_imp, ← ih]
    cases he : e.integer last <;> simp [integer, LacksResult, he, factorial?_eq_none_iff]
  | binary op a b iha ihb =>
    simp only [parts, List.mem_cons, List.mem_append, or_and_right, exists_or,
      ← iha, ← ihb]
    cases op <;> cases ha : a.integer last <;> cases hb : b.integer last <;>
      simp [integer, LacksResult, ha, hb, integer?_eq_none_iff]
  | choose n r ihn ihr | arrange n r ihn ihr =>
    simp only [parts, List.mem_cons, List.mem_append, or_and_right, exists_or,
      ← ihn, ← ihr]
    cases hn : n.integer last <;> simp [integer, LacksResult, hn]

/-! ## The trees of the expressions -/

def tree : IntegerExpression → Tree
  | literal l => .number l.digits
  | answer => .constant ['a', 'n', 's']
  | negate e => .negate e.tree
  | magnitude e => .call Function.abs.name [e.tree]
  | factorial e => .postfixed .factorial e.tree
  | binary op a b => .binary op a.tree b.tree
  | choose n r => .call Function.ncr.name [n.tree, r.tree]
  | arrange n r => .call Function.npr.name [n.tree, r.tree]

end IntegerExpression

theorem Function.ofName?_name (f : Function) : ofName? f.name = some f := by cases f <;> rfl

section Calls

variable (desk : Desk) (f : Function) (a b : Tree)

theorem Tree.value_call_one : (Tree.call f.name [a]).value desk =
    (a.value desk >>= fun x => Operations.apply desk f [x]) := by
  simp only [value, values, Function.ofName?_name]
  cases a.value desk <;> rfl

theorem Tree.value_call_two : (Tree.call f.name [a, b]).value desk =
    (a.value desk >>= fun x => b.value desk >>= fun y => Operations.apply desk f [x, y]) := by
  simp only [value, values, Function.ofName?_name]
  cases a.value desk <;> cases b.value desk <;> rfl

end Calls

namespace IntegerExpression

theorem isApplicable_tree (e : IntegerExpression) : e.tree.IsApplicable := by
  induction e with
  | literal l => trivial
  | answer => trivial
  | negate e ih => exact ih
  | magnitude e ih => exact ⟨⟨.abs, Function.ofName?_name _, rfl⟩, ih, trivial⟩
  | factorial e ih => exact ih
  | binary op a b iha ihb => exact ⟨iha, ihb⟩
  | choose n r ihn ihr => exact ⟨⟨.ncr, Function.ofName?_name _, rfl⟩, ihn, ihr, trivial⟩
  | arrange n r ihn ihr => exact ⟨⟨.npr, Function.ofName?_name _, rfl⟩, ihn, ihr, trivial⟩

end IntegerExpression

end DeskCalculator

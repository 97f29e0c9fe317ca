import DeskCalculator.Postfix.Basic

/-!
# Expression trees

What an expression means before anything is computed. A `Tree` has a number or a constant at each
leaf and an operation at each inner node. `Tree.items` is its postfix order: the items of the
operands from left to right, then the item of the operation, where a call tells how many arguments
it has.
-/

namespace DeskCalculator

inductive BinaryOperator where
  | plus
  | minus
  | times
  | divide
  | power
  deriving DecidableEq, Repr

def BinaryOperator.symbol : BinaryOperator → Symbol
  | plus => .plus
  | minus => .minus
  | times => .times
  | divide => .divide
  | power => .power

inductive PostfixSign where
  | factorial
  | percent
  deriving DecidableEq, Repr

def PostfixSign.symbol : PostfixSign → Symbol
  | factorial => .factorial
  | percent => .percent

inductive Tree where
  | number (text : Text)
  | constant (name : Text)
  | negate (operand : Tree)
  | binary (operator : BinaryOperator) (left right : Tree)
  | postfixed (sign : PostfixSign) (operand : Tree)
  | call (name : Text) (arguments : List Tree)

namespace Tree

/-- Induction over trees, where the arguments of a call are as many as there are. -/
@[induction_eliminator]
theorem induction {P : Tree → Prop} (number : ∀ t, P (.number t)) (constant : ∀ name, P (.constant name))
    (negate : ∀ e, P e → P (.negate e)) (binary : ∀ op a b, P a → P b → P (.binary op a b))
    (postfixed : ∀ sign e, P e → P (.postfixed sign e))
    (call : ∀ name arguments, (∀ e ∈ arguments, P e) → P (.call name arguments)) (e : Tree) : P e :=
  @Tree.rec P (fun es => ∀ e ∈ es, P e) number constant negate binary postfixed call
    (by simp) (fun _ _ h hs => by simpa [h] using hs) e

mutual

def items : Tree → List Item
  | number t => [.number t]
  | constant name => [.constant name]
  | negate e => items e ++ [.operator .negate]
  | binary op a b => items a ++ items b ++ [.operator op.symbol]
  | postfixed sign e => items e ++ [.postfixed sign.symbol]
  | call name arguments => itemsAll arguments ++ [.call name (some arguments.length)]

def itemsAll : List Tree → List Item
  | [] => []
  | e :: rest => items e ++ itemsAll rest

end

@[simp] theorem itemsAll_append (as bs : List Tree) :
    itemsAll (as ++ bs) = itemsAll as ++ itemsAll bs := by
  induction as with
  | nil => rfl
  | cons a as ih => simp [itemsAll, ih]

@[simp] theorem itemsAll_singleton (e : Tree) : itemsAll [e] = items e := by simp [itemsAll]

end Tree

end DeskCalculator

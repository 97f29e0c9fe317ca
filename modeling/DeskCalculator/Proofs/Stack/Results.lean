import DeskCalculator.Proofs.Decimal.Results
import DeskCalculator.Proofs.Stack.Step

/-!
# The results of an item

Whatever an item stacks is an integer or a decimal that the context of the desk keeps, whatever its
operands are; only the last answer is stacked as it is (`keeps_of_gives`). Each operation on
decimals is one of the context, and each function on doubles ends with a passage to a decimal of the
context.
-/

namespace DeskCalculator

/-- An integer of any size, or a decimal that the context of the desk keeps. -/
def Desk.Keeps (desk : Desk) : Value → Prop
  | .exact _ => True
  | .decimal d => desk.context.Keeps d

theorem Desk.isModerate_context (desk : Desk) : desk.context.IsModerate where
  precision_pos := by
    have := desk.precision.min_le
    exact Nat.lt_of_lt_of_le (by decide) this
  min_nonpos := (by decide : (-999999999999999999 : Int) ≤ 0)
  max_nonneg := (by decide : (0 : Int) ≤ 999999999999999999)
  tiny_le := by
    have := desk.precision.le_max
    show (-999999999999999999 : Int) - (999999999999999999 - 1) ≤
      -999999999999999999 - (desk.precision.digits - 1)
    omega
  max_le := Int.le_refl _

def Item.isAnswer : Item → Bool
  | constant name => name ≠ ['p', 'i'] && name ≠ ['e']
  | _ => false

namespace Operations

variable (desk : Desk)

theorem keeps_ofDouble (r : Except ArithmeticFault Double) :
    Yields desk.Keeps (ofDouble desk r) :=
  .map fun x _ => Context.keeps_ofDouble desk.isModerate_context x

theorem keeps_exact (r : Except ArithmeticFault Int) : Yields desk.Keeps (r.map .exact) :=
  .map (yields_true r)

theorem keeps_named {what : Except Fault Text} {r : Except ArithmeticFault Value}
    (h : Yields desk.Keeps r) : Yields desk.Keeps (named what r) :=
  fun v hv => h v (named_eq_ok_iff.1 hv)

/-! ## Operators and signs -/

theorem keeps_negate (v : Value) : desk.Keeps (negate desk v) := by
  cases v with
  | exact n => trivial
  | decimal d => exact Context.keeps_minus desk.isModerate_context d

theorem keeps_decimalOperate (symbol : Symbol) (a b : Decimal) :
    Yields desk.Keeps (decimalOperate desk symbol a b) := by
  have hctx := desk.isModerate_context
  cases symbol with
  | plus => exact yields_ok (Context.keeps_add hctx a b)
  | minus => exact yields_ok (Context.keeps_sub hctx a b)
  | times => exact yields_ok (Context.keeps_mul hctx a b)
  | divide => exact .ite (yields_error _) (yields_ok (Context.keeps_div hctx a b))
  | power => exact keeps_named desk (.map fun d hd => Context.keeps_power hctx hd)
  | _ => exact yields_error _

theorem keeps_exactOperate (symbol : Symbol) (m n : Int) :
    Yields desk.Keeps (exactOperate symbol m n) := by
  cases symbol with
  | plus | minus | times | power => exact yields_ok trivial
  | divide => exact .ite (yields_error _) (keeps_named desk (keeps_exact desk _))
  | _ => exact yields_error _

theorem keeps_operate (symbol : Symbol) (a b : Value) :
    Yields desk.Keeps (operate desk symbol a b) := by
  unfold operate
  split
  · exact .ite (keeps_decimalOperate desk _ _ _) (keeps_exactOperate desk _ _ _)
  · exact keeps_decimalOperate desk _ _ _

theorem keeps_factorial (v : Value) : Yields desk.Keeps (factorial desk v) := by
  cases v with
  | exact n =>
    refine .ite ?_ (keeps_named desk (keeps_exact desk _))
    split <;> exact yields_error _
  | decimal d =>
    refine keeps_named desk (.ite (.ite (keeps_exact desk _) ?_) (keeps_ofDouble desk _))
    exact yields_ok (Context.keeps_factorial desk.isModerate_context _)

theorem keeps_percent (v : Value) : Yields desk.Keeps (percent desk v) := by
  cases v with
  | exact n => exact keeps_named desk (keeps_ofDouble desk _)
  | decimal d => exact yields_ok (Context.keeps_div desk.isModerate_context _ _)

/-! ## Functions -/

theorem keeps_inDoubles (f : Double → Except ArithmeticFault Double) (v : Value) :
    Yields desk.Keeps (inDoubles desk f v) :=
  .bind fun _ _ => keeps_ofDouble desk _

theorem keeps_ofAngle (f : Double → Except ArithmeticFault Double) (v : Value) :
    Yields desk.Keeps (ofAngle desk f v) :=
  .bind fun _ _ => keeps_ofDouble desk _

theorem keeps_fromRadians (x : Double) : desk.context.Keeps (fromRadians desk x) :=
  .ite (Context.keeps_div desk.isModerate_context _ _)
    (Context.keeps_ofDouble desk.isModerate_context x)

theorem keeps_toAngle (f : Double → Except ArithmeticFault Double) (v : Value) :
    Yields desk.Keeps (toAngle desk f v) :=
  .bind fun _ _ => .bind fun x _ => yields_ok (keeps_fromRadians desk x)

theorem keeps_magnitude (v : Value) : desk.Keeps (magnitude desk v) := by
  cases v with
  | exact n => trivial
  | decimal d => exact Context.keeps_abs desk.isModerate_context d

theorem keeps_applyOne (f : Function) (v : Value) : Yields desk.Keeps (applyOne desk f v) := by
  cases f with
  | sin | cos | tan => exact keeps_ofAngle desk _ v
  | asin | acos | atan => exact keeps_toAngle desk _ v
  | sinh | cosh | tanh | asinh | acosh | atanh | ln | log | sqrt | exp | gamma | erf =>
    exact keeps_inDoubles desk _ v
  | _ => exact yields_ok (keeps_magnitude desk v)

theorem keeps_count {rounded : Int → Int → Decimal}
    (h : ∀ n r, desk.context.Keeps (rounded n r)) (exact : Int → Int → Int)
    (general : Double → Double → Except ArithmeticFault Double) (n r : Value) :
    Yields desk.Keeps (count desk exact rounded general n r) :=
  .ite (.ite (yields_ok trivial) (yields_ok (h _ _))) (keeps_ofDouble desk _)

theorem keeps_applyTwo (f : Function) (a b : Value) : Yields desk.Keeps (applyTwo desk f a b) := by
  have hctx := desk.isModerate_context
  cases f with
  | root => exact keeps_ofDouble desk _
  | ncr => exact keeps_count desk (Context.keeps_choose hctx) _ _ a b
  | _ => exact keeps_count desk (Context.keeps_arrange hctx) _ _ a b

/-! ## Items that stack a value -/

theorem keeps_number (t : Text) : desk.Keeps (number desk t) :=
  Context.keeps_plus desk.isModerate_context _

theorem keeps_constant (name : Text) :
    desk.Keeps (constant desk name) ∨
      (Item.constant name).isAnswer ∧ constant desk name = desk.answer := by
  have hctx := desk.isModerate_context
  unfold constant
  split
  · exact .inl (Context.keeps_pi hctx)
  · split
    · exact .inl (Context.keeps_e hctx)
    · rename_i hpi he
      exact .inr ⟨by simp [Item.isAnswer, hpi, he], rfl⟩

end Operations

/-- **What an item stacks** is kept by the context of the desk, or is the last answer. -/
theorem Stack.keeps_of_gives {desk : Desk} {item : Item} {operands : List Value} {v : Value}
    (h : Gives desk item operands v) : desk.Keeps v ∨ item.isAnswer ∧ v = desk.answer := by
  cases h with
  | number t => exact .inl (Operations.keeps_number desk t)
  | constant name => exact Operations.keeps_constant desk name
  | negate a => exact .inl (Operations.keeps_negate desk a)
  | operate _ h => exact .inl (Operations.keeps_operate desk _ _ _ v h)
  | factorial h => exact .inl (Operations.keeps_factorial desk _ v h)
  | percent _ h => exact .inl (Operations.keeps_percent desk _ v h)
  | callOne _ _ h => exact .inl (Operations.keeps_applyOne desk _ _ v h)
  | callTwo _ _ h => exact .inl (Operations.keeps_applyTwo desk _ _ _ v h)

end DeskCalculator

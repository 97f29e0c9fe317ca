import DeskCalculator.Proofs.Expression.Tree
import DeskCalculator.Stack.Run

/-!
# The value of a tree

`Tree.value` evaluates a tree by recursion: the operands from left to right, then the operation, up
to the first failure. `Tree.height` is the most values that a stack machine holds meanwhile.
`Tree.IsApplicable` says that the calls of the tree fit their functions.
-/

namespace DeskCalculator

/-! ## The value of a tree -/

def PostfixSign.apply (desk : Desk) : PostfixSign → Value → Except Failure Value
  | factorial => Operations.factorial desk
  | percent => Operations.percent desk

namespace Tree

section Value

variable (desk : Desk)

mutual

def value : Tree → Except Failure Value
  | number t => .ok (Operations.number desk t)
  | constant name => .ok (Operations.constant desk name)
  | negate e => do return Operations.negate desk (← value e)
  | binary op a b => do
    let x ← value a
    let y ← value b
    Operations.operate desk op.symbol x y
  | postfixed sign e => do sign.apply desk (← value e)
  | call name arguments => do
    let vs ← values arguments
    match Function.ofName? name with
    | some f => Operations.apply desk f vs
    | none => .error (.problem (.unknownFunction name))

def values : List Tree → Except Failure (List Value)
  | [] => .ok []
  | e :: rest => do
    let v ← value e
    let vs ← values rest
    return v :: vs

end

/-- The value of a whole expression, which has to be finite. -/
def result (e : Tree) : Except Failure Value := do
  match ← e.value desk with
  | .exact n => .ok (.exact n)
  | .decimal d => if d.isFinite then .ok (.decimal d) else .error (.problem (.notFinite d.text))

mutual

/-- The most values that are on the stack while a tree is evaluated, up to the first failure. -/
def height : Tree → Nat
  | number _ | constant _ => 1
  | negate e | postfixed _ e => height e
  | binary _ a b =>
    match value desk a with
    | .ok _ => max (height a) (1 + height b)
    | .error _ => height a
  | call _ arguments => max 1 (heightAll arguments)

/-- The same for trees one after the other, whose values stay on the stack. -/
def heightAll : List Tree → Nat
  | [] => 0
  | e :: rest =>
    match value desk e with
    | .ok _ => max (height e) (1 + heightAll rest)
    | .error _ => height e

end

end Value

mutual

/-- Every function of the tree exists and has as many arguments as it takes. -/
def IsApplicable : Tree → Prop
  | number _ | constant _ => True
  | negate e | postfixed _ e => IsApplicable e
  | binary _ a b => IsApplicable a ∧ IsApplicable b
  | call name arguments =>
    (∃ f, Function.ofName? name = some f ∧ arguments.length = f.arity) ∧ AllApplicable arguments

def AllApplicable : List Tree → Prop
  | [] => True
  | e :: rest => IsApplicable e ∧ AllApplicable rest

end

theorem allApplicable_iff {es : List Tree} : AllApplicable es ↔ ∀ e ∈ es, e.IsApplicable := by
  induction es with
  | nil => simp [AllApplicable]
  | cons e es ih => simp [AllApplicable, ih]

theorem result_of_value {desk : Desk} {e : Tree} {v : Value} (h : e.value desk = .ok v)
    (hfinite : v.isFinite) : e.result desk = .ok v := by
  rw [result, h]
  cases v with
  | exact n => rfl
  | decimal d => exact if_pos hfinite

theorem height_pos (desk : Desk) (e : Tree) : 0 < e.height desk := by
  induction e with
  | number t => exact Nat.zero_lt_one
  | constant name => exact Nat.zero_lt_one
  | negate e ih => exact ih
  | binary op a b iha ihb =>
    rw [height]
    split
    · omega
    · exact iha
  | postfixed sign e ih => exact ih
  | call name arguments _ =>
    rw [height]
    omega

theorem length_of_values {desk : Desk} {es : List Tree} {vs : List Value}
    (h : values desk es = .ok vs) : vs.length = es.length := by
  induction es generalizing vs with
  | nil =>
    cases h
    rfl
  | cons e es ih =>
    simp only [values] at h
    cases hv : e.value desk with
    | error f =>
      rw [hv] at h
      cases h
    | ok v =>
      cases hvs : values desk es with
      | error f =>
        rw [hv, hvs] at h
        cases h
      | ok ws =>
        rw [hv, hvs] at h
        cases h
        simp [ih hvs]

end Tree

end DeskCalculator

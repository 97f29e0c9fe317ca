import DeskCalculator.Stack.Operations

/-!
# Running postfix items on a stack

The stack is a list of values with the topmost first. `feed` takes one item; where it fails it tells
the stack that the failure leaves, from which the operands are gone already. `run` takes a list of
items from an empty stack, which must leave one finite value.
-/

namespace DeskCalculator.Stack

/-- The most values that may be stacked after an item of a run. -/
def maxEntries : Nat := 5000

/-- The stack after an item, or the failure with the stack that it leaves. -/
abbrev Outcome := Except (Failure × List Value) (List Value)

/-- Stacks a result, or tells a failure with the stack that is left. -/
def push (rest : List Value) : Except Failure Value → Outcome
  | .ok v => .ok (v :: rest)
  | .error e => .error (e, rest)

def missing (needed : Nat) (stack : List Value) : Outcome :=
  .error (.problem (.missingOperand needed), stack)

def unary (f : Value → Except Failure Value) : List Value → Outcome
  | v :: rest => push rest (f v)
  | stack => missing 1 stack

/-- Applies an operation to the two topmost values, the lower one first. -/
def binary (f : Value → Value → Except Failure Value) : List Value → Outcome
  | b :: a :: rest => push rest (f a b)
  | stack => missing 2 stack

/-- Calls a function with a number of arguments. The arguments are taken off the stack even if the
function takes another number of them. -/
def call (desk : Desk) (name : Text) (arity : Option Int) (stack : List Value) : Outcome :=
  match Function.ofName? name, arity with
  | none, _ => .error (.problem (.unknownFunction name), stack)
  | some _, none => .error (.fault .missingArity, stack)
  | some f, some n =>
    if (stack.length : Int) < n then .error (.problem (.missingArguments name n), stack)
    else
      let rest := stack.drop n.toNat
      if n ≠ f.arity then .error (.problem (.arityMismatch name f.arity n), rest)
      else push rest (Operations.apply desk f (stack.take n.toNat).reverse)

def feed (desk : Desk) (item : Item) (stack : List Value) : Outcome :=
  match item with
  | .number t => .ok (Operations.number desk t :: stack)
  | .constant name => .ok (Operations.constant desk name :: stack)
  | .operator .negate => unary (fun v => .ok (Operations.negate desk v)) stack
  | .operator symbol => binary (Operations.operate desk symbol) stack
  | .postfixed .factorial => unary (Operations.factorial desk) stack
  | .postfixed _ => unary (Operations.percent desk) stack
  | .call name arity => call desk name arity stack
  | .unknown .. => .error (.problem (.unknownItem item.shown), stack)

/-- Takes items one after the other, up to the first failure. -/
def feedAll (desk : Desk) : List Item → List Value → Except Failure (List Value)
  | [], stack => .ok stack
  | item :: rest, stack =>
    match feed desk item stack with
    | .error (e, _) => .error e
    | .ok stack =>
      if maxEntries < stack.length then .error (.problem (.stackOverflow stack.length))
      else feedAll desk rest stack

/-- The value that a stack ends with. -/
def result : List Value → Except Failure Value
  | [.exact n] => .ok (.exact n)
  | [.decimal d] => if d.isFinite then .ok (.decimal d) else .error (.problem (.notFinite d.text))
  | stack => .error (.problem (.valuesLeft stack.length))

def run (desk : Desk) (items : List Item) : Except Failure Value :=
  match feedAll desk items [] with
  | .ok stack => result stack
  | .error e => .error e

/-- One step of a trace: the stack after an item, and the failure of that item. -/
structure TraceStep where
  stack : List Value
  failure : Option Failure
  deriving Repr

/-- Takes all items one after the other, going on after a failure with the stack that it leaves. -/
def trace (desk : Desk) : List Item → List Value → List TraceStep
  | [], _ => []
  | item :: rest, stack =>
    match feed desk item stack with
    | .ok stack => ⟨stack, none⟩ :: trace desk rest stack
    | .error (e, stack) => ⟨stack, some e⟩ :: trace desk rest stack

end DeskCalculator.Stack

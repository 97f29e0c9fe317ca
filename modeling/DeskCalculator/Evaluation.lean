import DeskCalculator.Postfix.OfTokens
import DeskCalculator.Stack.Run
import DeskCalculator.Token.Scan

/-!
# Evaluating a text

The tokens of a text, their items in postfix order, and the value of these. `evaluate` also records
the value as the last answer of the desk.
-/

namespace DeskCalculator

def Item.ofText (t : Text) : Except Failure (List Item) :=
  match Token.scan t with
  | .ok tokens => Postfix.ofTokens tokens
  | .error p => .error (.problem p)

namespace Desk

def compute (desk : Desk) (t : Text) : Except Failure Value :=
  match Item.ofText t with
  | .ok items => Stack.run desk items
  | .error e => .error e

/-- The desk after an evaluation, and the value or the problem that was told. -/
def evaluate (desk : Desk) (t : Text) : Except Fault (Desk × Except Problem Value) :=
  match desk.compute t with
  | .ok v => .ok (desk.setAnswer v, .ok v)
  | .error (.problem p) => .ok (desk, .error p)
  | .error (.fault f) => .error f

end Desk

end DeskCalculator

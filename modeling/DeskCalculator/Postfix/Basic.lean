import DeskCalculator.Fault
import DeskCalculator.Token.Basic

/-!
# Postfix items

An expression in postfix order is a list of items: numbers and constants to be stacked, operators
and calls to be applied to what is stacked. An item may also come from elsewhere than an expression:
a call that does not say how many arguments it takes, or an item of an unknown kind.
-/

namespace DeskCalculator

/-- An item of an expression in postfix order. -/
inductive Item where
  | number (text : Text)
  | constant (name : Text)
  | operator (symbol : Symbol)
  | postfixed (symbol : Symbol)
  | call (name : Text) (arity : Option Int)
  | unknown (kind value : Text) (arity : Option Int)
  deriving DecidableEq, Repr

namespace Item

def kindName : Item → Text
  | number _ => Text.ofString "number"
  | constant _ => Text.ofString "const"
  | operator _ => Text.ofString "op"
  | postfixed _ => Text.ofString "postfix"
  | call .. => Text.ofString "func"
  | unknown kind .. => kind

/-- The text of an item without its kind. -/
def value : Item → Text
  | number t => t
  | constant name | call name _ => name
  | operator s | postfixed s => s.text
  | unknown _ value _ => value

def arity? : Item → Option Int
  | call _ arity | unknown _ _ arity => arity
  | _ => none

def ofNames (kind value : Text) (arity : Option Int) : Item :=
  match kind.toString with
  | "number" => number value
  | "const" => constant value
  | "op" => operator (Symbol.ofText value)
  | "postfix" => postfixed (Symbol.ofText value)
  | "func" => call value arity
  | _ => unknown kind value arity

def shown (item : Item) : Text :=
  Text.ofString "Item(kind=" ++ Text.quoted item.kindName ++ Text.ofString ", value=" ++
    Text.quoted item.value ++ Text.ofString ", arity=" ++
    (match item.arity? with
      | some n => Text.ofInt n
      | none => Text.ofString "None") ++ [')']

/-- How an item is listed: a call with its number of arguments after a slash. -/
def listed : Item → Text
  | call name (some n) => name ++ '/' :: Text.ofInt n
  | item => item.value

end Item

end DeskCalculator

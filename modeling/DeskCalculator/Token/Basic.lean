import DeskCalculator.Text.Basic

/-!
# Tokens

The words of an expression. A `Symbol` is an operator; the two readings of a minus are different
symbols. A `Token` is a lexeme with the position of its first character. A list of tokens may also
come from elsewhere than a text, so there are symbols without a meaning and tokens that are no
lexeme.
-/

namespace DeskCalculator

/-- An operator, before, between or behind its operands. -/
inductive Symbol where
  | plus
  | minus
  | times
  | divide
  | power
  | negate
  | factorial
  | percent
  /-- A symbol without a meaning. -/
  | other (text : Text)
  deriving DecidableEq, Repr

namespace Symbol

def text : Symbol → Text
  | plus => ['+']
  | minus => ['-']
  | times => ['*']
  | divide => ['/']
  | power => ['^']
  | negate => ['n', 'e', 'g']
  | factorial => ['!']
  | percent => ['%']
  | other t => t

def ofText (t : Text) : Symbol :=
  match [plus, minus, times, divide, power, negate, factorial, percent].find? (·.text == t) with
  | some s => s
  | none => other t

/-- How tightly a symbol binds; negation binds more tightly than a power. -/
def rank? : Symbol → Option Nat
  | factorial | percent => some 6
  | negate => some 5
  | power => some 4
  | times | divide => some 3
  | plus | minus => some 2
  | other _ => none

/-- Whether a symbol leaves one of its own rank on its left waiting. -/
def isRightAssociative : Symbol → Bool
  | power | negate => true
  | _ => false

end Symbol

inductive Lexeme where
  /-- Digits and at most one point. -/
  | number (text : Text)
  /-- The name of a constant, in small letters. -/
  | constant (name : Text)
  /-- Any other name, in small letters. -/
  | function (name : Text)
  | operator (symbol : Symbol)
  | postfixed (symbol : Symbol)
  | opening
  | closing
  | comma
  /-- What is no word of an expression. -/
  | foreign
  deriving DecidableEq, Repr

/-- A lexeme and the number of characters before it. -/
structure Token where
  lexeme : Lexeme
  position : Nat
  deriving DecidableEq, Repr

namespace Lexeme

/-- The text of a lexeme as it is listed. -/
def text : Lexeme → Text
  | number t => t
  | constant name | function name => name
  | operator s | postfixed s => s.text
  | opening => ['(']
  | closing => [')']
  | comma => [',']
  | foreign => []

def kindName : Lexeme → String
  | number _ => "number"
  | constant _ => "const"
  | function _ => "func"
  | operator _ => "op"
  | postfixed _ => "postfix"
  | opening | closing => "paren"
  | comma => "comma"
  | foreign => ""

/-- The lexeme with the name of its kind and its text. Every parenthesis but `)` opens. -/
def ofNames (kind : String) (text : Text) : Lexeme :=
  match kind with
  | "number" => number text
  | "const" => constant text
  | "func" => function text
  | "op" => operator (Symbol.ofText text)
  | "postfix" => postfixed (Symbol.ofText text)
  | "paren" => if text = [')'] then closing else opening
  | "comma" => comma
  | _ => foreign

/-- Whether what follows a lexeme starts an operand, so that a minus there negates. -/
def beforeOperand : Lexeme → Bool
  | operator _ | comma | opening => true
  | _ => false

end Lexeme

end DeskCalculator

import DeskCalculator.Fault

/-!
# Problems

What the calculator tells its user when an expression has no value. A `Problem` is the cause with
its particulars; `kind` sorts the causes, `message` words them, and `display` is the short text that
the display shows: a syntax error for what is wrong with the form of an expression, a math error for
what is wrong with its numbers.
-/

namespace DeskCalculator

inductive Stage where
  | lexical
  | structural
  | numeric
  deriving DecidableEq, Repr

inductive ProblemKind where
  | unknownToken
  | malformedNumber
  | mismatchedParen
  | misplacedComma
  | invalidExpression
  | missingOperand
  | unknownFunction
  | divisionByZero
  | negativeFactorial
  | missingArguments
  | arityMismatch
  | mathError
  | stackOverflow
  | noValue
  deriving DecidableEq, Repr

namespace ProblemKind

def wording : ProblemKind → String
  | unknownToken => "unknown token"
  | malformedNumber => "malformed number"
  | mismatchedParen => "mismatched parentheses"
  | misplacedComma => "misplaced comma"
  | invalidExpression => "invalid expression"
  | missingOperand => "missing operand"
  | unknownFunction => "unknown function"
  | divisionByZero => "division by zero"
  | negativeFactorial => "negative factorial"
  | missingArguments => "missing arguments"
  | arityMismatch => "arity mismatch"
  | mathError => "math error"
  | stackOverflow => "stack overflow"
  | noValue => "no value"

def stage : ProblemKind → Stage
  | unknownToken | malformedNumber => .lexical
  | mismatchedParen | misplacedComma | invalidExpression | missingOperand | unknownFunction =>
    .structural
  | divisionByZero | negativeFactorial | missingArguments | arityMismatch | mathError
  | stackOverflow | noValue => .numeric

end ProblemKind

/-- Why an expression has no value. -/
inductive Problem where
  /-- A character that starts no lexeme. -/
  | unknownToken (c : Char) (position : Nat)
  /-- A run of digits and dots with no digit, or with two dots or more. -/
  | malformedNumber (lexeme : Text) (position : Nat)
  /-- A parenthesis that is never closed. -/
  | unclosedParen
  /-- A closing parenthesis without an opening one. -/
  | unopenedParen
  /-- A comma outside all parentheses. -/
  | misplacedComma (position : Nat)
  /-- An expression that leaves no value, or more than one. -/
  | valuesLeft (count : Nat)
  /-- An item of an unknown sort, as it is shown. -/
  | unknownItem (shown : Text)
  /-- Fewer values than an operator takes. -/
  | missingOperand (needed : Nat)
  | unknownFunction (name : Text)
  | divisionByZero
  /-- A factorial of a negative integer, given by its text. -/
  | negativeFactorial (shown : Text)
  /-- Fewer values than a call has arguments. -/
  | missingArguments (name : Text) (given : Int)
  /-- A call with a wrong number of arguments. -/
  | arityMismatch (name : Text) (expected : Nat) (given : Int)
  /-- A number function failed; `what` names the operation. -/
  | failed (what : Text) (cause : ArithmeticFault)
  /-- A result that is infinite or not a number, given by its text. -/
  | notFinite (shown : Text)
  /-- More values than the stack may hold. -/
  | stackOverflow (entries : Nat)
  /-- A typed text that is no number. -/
  | noValue (typed : Text)
  deriving DecidableEq, Repr

namespace Problem

def kind : Problem → ProblemKind
  | unknownToken .. => .unknownToken
  | malformedNumber .. => .malformedNumber
  | unclosedParen | unopenedParen => .mismatchedParen
  | misplacedComma .. => .misplacedComma
  | valuesLeft .. | unknownItem .. => .invalidExpression
  | missingOperand .. => .missingOperand
  | unknownFunction .. => .unknownFunction
  | divisionByZero => .divisionByZero
  | negativeFactorial .. => .negativeFactorial
  | missingArguments .. => .missingArguments
  | arityMismatch .. => .arityMismatch
  | failed .. | notFinite .. => .mathError
  | stackOverflow .. => .stackOverflow
  | noValue .. => .noValue

/-- The particulars that follow the wording of the kind. -/
def detail? : Problem → Option String
  | unknownToken c position => some ((Text.quoted [c]).toString ++ " at " ++ toString position)
  | malformedNumber lexeme _ => some (Text.quoted lexeme).toString
  | unclosedParen => some "unclosed ("
  | unopenedParen => some "unopened )"
  | misplacedComma position => some ("at " ++ toString position)
  | valuesLeft count => some (toString count ++ " values left")
  | unknownItem shown => some shown.toString
  | missingOperand needed => some ("less than " ++ toString needed ++ " value(s) on stack")
  | unknownFunction name => some name.toString
  | divisionByZero => none
  | negativeFactorial shown => some shown.toString
  | missingArguments name given => some (name.toString ++ " needs " ++ (Text.ofInt given).toString)
  | arityMismatch name expected given => some (name.toString ++ " takes " ++ toString expected ++
      ", got " ++ (Text.ofInt given).toString)
  | failed what _ => some (what.toString ++ " failed")
  | notFinite shown => some shown.toString
  | stackOverflow entries => some (toString entries ++ " entries")
  | noValue typed => some (Text.quoted typed).toString

def message (p : Problem) : String :=
  match p.detail? with
  | none => p.kind.wording
  | some detail => p.kind.wording ++ ": " ++ detail

def display (p : Problem) : Text :=
  match p.kind.stage with
  | .lexical | .structural => Text.ofString "Syntax Error"
  | .numeric => Text.ofString "Math Error"

/-- Where in the text a lexical problem stands. -/
def position? : Problem → Option Nat
  | unknownToken _ position | malformedNumber _ position => some position
  | _ => none

end Problem

/-- Why an evaluation stopped: a problem to be told, or a fault that is let through. -/
inductive Failure where
  | problem (p : Problem)
  | fault (f : Fault)
  deriving DecidableEq, Repr

end DeskCalculator

import DeskCalculator.Text.Quoted

/-!
# Faults

A fault is an operation that has no answer and is not (or not yet) told as an error of the
calculator. `ArithmeticFault` are those of the number functions; `Fault` adds the ones that the
calculator lets through to its caller. Each has a message.
-/

namespace DeskCalculator

/-- Why a number function has no answer. -/
inductive ArithmeticFault where
  /-- An argument outside the domain of the function. -/
  | domain
  /-- A result beyond the largest double. -/
  | range
  /-- A double divided by zero. -/
  | zeroDivisor
  /-- An integer divided by zero. -/
  | integerZeroDivisor
  /-- A quotient of integers beyond the largest double. -/
  | quotientTooLarge
  /-- A factorial of an integer that does not fit a machine word. -/
  | factorialTooLarge
  /-- A factorial of a negative integer. -/
  | factorialOfNegative
  /-- A signaling NaN has no double. -/
  | signalingNaN
  deriving DecidableEq, Repr

namespace ArithmeticFault

def message : ArithmeticFault → String
  | domain => "math domain error"
  | range => "math range error"
  | zeroDivisor => "float division by zero"
  | integerZeroDivisor => "integer division by zero"
  | quotientTooLarge => "integer division result too large for a float"
  | factorialTooLarge => "factorial() argument should not exceed 9223372036854775807"
  | factorialOfNegative => "factorial of negative number"
  | signalingNaN => "cannot convert signaling NaN to float"

end ArithmeticFault

/-- Why a whole operation has no answer. -/
inductive Fault where
  /-- A number function failed where nothing catches it. -/
  | arithmetic (cause : ArithmeticFault)
  /-- An integer too long to be written. -/
  | integerTooLong
  /-- An operator that is not in the table. -/
  | unknownOperator (symbol : Text)
  /-- A function item that does not say how many arguments it takes. -/
  | missingArity
  /-- A name of an angle unit that does not exist; `shown` is how the name is shown. -/
  | unknownAngle (shown : Text)
  /-- A postfix key that does not exist. -/
  | unknownPostfix (symbol : Text)
  /-- An infinite number where an integer is wanted. -/
  | infiniteInteger
  /-- An integer too large for a machine word. -/
  | wordTooLarge
  /-- A decimal beyond the display's exponent range. -/
  | displayOverflow
  /-- A text that is no decimal. -/
  | invalidDecimal
  deriving DecidableEq, Repr

namespace Fault

def message : Fault → String
  | arithmetic cause => cause.message
  | integerTooLong =>
      "Exceeds the limit (4300 digits) for integer string conversion; " ++
        "use sys.set_int_max_str_digits() to increase the limit"
  | unknownOperator symbol => (Text.quoted symbol).toString
  | missingArity => "a function without a number of arguments"
  | unknownAngle shown => shown.toString ++ " is not a valid AngleMode"
  | unknownPostfix symbol => "not a postfix operator: " ++ (Text.quoted symbol).toString
  | infiniteInteger => "an infinite number is no integer"
  | wordTooLarge => "an integer too large for a machine word"
  | displayOverflow => "a number too large for the display"
  | invalidDecimal => "not a decimal number"

end Fault

end DeskCalculator

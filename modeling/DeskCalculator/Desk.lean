import DeskCalculator.Value.Basic
import DeskCalculator.Json.Writer

/-!
# The desk

What outlives a single evaluation: the settings (precision, unit of angles, exact mode) and two
registers, the last answer and the memory. Evaluation only reads a desk. The precision is a number
of significant digits that stays between 8 and 200 whatever is asked for.
-/

namespace DeskCalculator

/-- A number of significant digits in the supported range. -/
structure Precision where
  digits : Nat
  min_le : 8 ≤ digits := by decide
  le_max : digits ≤ 200 := by decide
  deriving DecidableEq, Repr

namespace Precision

/-- The supported precision nearest to a wish. -/
def clamp (n : Int) : Precision where
  digits := max 8 (min 200 n.toNat)
  min_le := by omega
  le_max := by omega

def standard : Precision where
  digits := 34

/-- The precision that a stored or typed setting asks for: a whole number, the integer part of
another number, or the integer that a text writes; the standard one for everything else. An infinite
number is a fault. -/
def ofSetting : Json → Except Fault Precision
  | .bool b => .ok (clamp (if b then 1 else 0))
  | .integer n => .ok (clamp n)
  | .number .nan => .ok standard
  | .number (.infinite _) => .error .infiniteInteger
  | .number x => .ok (clamp x.truncate)
  | .string t => .ok (((Text.Integer.read? t).map clamp).getD standard)
  | _ => .ok standard

end Precision

inductive AngleUnit where
  | degrees
  | radians
  deriving DecidableEq, Repr

namespace AngleUnit

def name : AngleUnit → Text
  | degrees => ['d', 'e', 'g']
  | radians => ['r', 'a', 'd']

def ofSetting : Json → Except Fault AngleUnit
  | .string t =>
    if t = degrees.name then .ok degrees
    else if t = radians.name then .ok radians
    else .error (.unknownAngle (Text.quoted t))
  | value => .error (.unknownAngle value.shown)

def other : AngleUnit → AngleUnit
  | degrees => radians
  | radians => degrees

end AngleUnit

/-- A switch as it was given: a truth value, or a whole number that is on unless it is zero. -/
inductive Switch where
  | truth (b : Bool)
  | number (n : Int)
  deriving DecidableEq, Repr

namespace Switch

def isOn : Switch → Bool
  | truth b => b
  | number n => n != 0

def ofSetting : Json → Switch
  | .integer n => number n
  | value => truth value.isTrue

def toJson : Switch → Json
  | truth b => .bool b
  | number n => .integer n

end Switch

/-- Settings and registers. -/
structure Desk where
  precision : Precision := .standard
  angle : AngleUnit := .radians
  /-- Whether factorials and counts of whole numbers are exact integers. -/
  exact : Switch := .truth false
  answer : Value := .decimal .zero
  memory : Value := .decimal .zero
  deriving DecidableEq, Repr

namespace Desk

/-- The context of an evaluation: halves are rounded up, and the exponents have the widest range, so
that what overflows becomes infinite and what has no result becomes a NaN. -/
def context (desk : Desk) : Context where
  precision := desk.precision.digits
  rounding := .halfUp
  maxExponent := 999999999999999999
  minExponent := -999999999999999999

def inDegrees (desk : Desk) : Bool := desk.angle = .degrees

def setPrecision (desk : Desk) (setting : Json) : Except Fault Desk :=
  (Precision.ofSetting setting).map fun p => { desk with precision := p }

def setAngle (desk : Desk) (setting : Json) : Except Fault Desk :=
  (AngleUnit.ofSetting setting).map fun a => { desk with angle := a }

def toggleAngle (desk : Desk) : Desk := { desk with angle := desk.angle.other }

def setExact (desk : Desk) (on : Bool) : Desk := { desk with exact := .truth on }

def setAnswer (desk : Desk) (v : Value) : Desk := { desk with answer := v }

/-- The sum of two values: exact if both are, else a decimal of the context. -/
def sum (desk : Desk) : Value → Value → Value
  | .exact m, .exact n => .exact (m + n)
  | a, b => .decimal (desk.context.add a.toDecimal b.toDecimal)

def difference (desk : Desk) : Value → Value → Value
  | .exact m, .exact n => .exact (m - n)
  | a, b => .decimal (desk.context.sub a.toDecimal b.toDecimal)

def memoryAdd (desk : Desk) (v : Value) : Desk := { desk with memory := desk.sum desk.memory v }

def memorySubtract (desk : Desk) (v : Value) : Desk :=
  { desk with memory := desk.difference desk.memory v }

def memoryClear (desk : Desk) : Desk := { desk with memory := .decimal .zero }

end Desk

end DeskCalculator

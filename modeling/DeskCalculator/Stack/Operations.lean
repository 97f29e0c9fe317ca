import DeskCalculator.Desk
import DeskCalculator.Postfix.Basic
import DeskCalculator.Problem
import DeskCalculator.Stack.Function
import DeskCalculator.Value.Constants
import DeskCalculator.Value.Counting
import DeskCalculator.Value.Gamma

/-!
# Operations on values

What an operator, a postfix sign or a function makes of its operands, with the settings of a desk.
Two exact integers give an exact integer, where division drops the fraction, unless the exponent of
a power is negative; all else goes through decimals. Where a number function fails, the problem
names the operation; a name that holds an integer too long to be written is a fault instead.
-/

namespace DeskCalculator.Operations

variable (desk : Desk)

/-- The largest whole decimal whose factorial is exact in exact mode. -/
def exactFactorialLimit : Int := 2000

/-- A result of number functions, whose failure is told under the name of the operation. -/
def named (what : Except Fault Text) (result : Except ArithmeticFault Value) :
    Except Failure Value :=
  match result, what with
  | .ok v, _ => .ok v
  | .error cause, .ok what => .error (.problem (.failed what cause))
  | .error _, .error fault => .error (.fault fault)

def ofDouble (result : Except ArithmeticFault Double) : Except ArithmeticFault Value :=
  result.map fun x => .decimal (desk.context.ofDouble x)

/-! ## Operators -/

def negate : Value → Value
  | .exact n => .exact (-n)
  | .decimal d => .decimal (desk.context.minus d)

/-- An operator between exact integers, the exponent of a power not negative. -/
def exactOperate (symbol : Symbol) (m n : Int) : Except Failure Value :=
  match symbol with
  | .plus => .ok (.exact (m + n))
  | .minus => .ok (.exact (m - n))
  | .times => .ok (.exact (m * n))
  | .power => .ok (.exact (Int.pow m n.toNat))
  | .divide =>
    if n = 0 then .error (.problem .divisionByZero)
    else named (.ok symbol.text) ((Counting.divideTowardZero m n).map .exact)
  | _ => .error (.fault (.unknownOperator symbol.text))

def decimalOperate (symbol : Symbol) (a b : Decimal) : Except Failure Value :=
  match symbol with
  | .plus => .ok (.decimal (desk.context.add a b))
  | .minus => .ok (.decimal (desk.context.sub a b))
  | .times => .ok (.decimal (desk.context.mul a b))
  | .divide =>
    if b.isZero then .error (.problem .divisionByZero) else .ok (.decimal (desk.context.div a b))
  | .power => named (.ok symbol.text) ((desk.context.power a b).map .decimal)
  | _ => .error (.fault (.unknownOperator symbol.text))

def operate (symbol : Symbol) (a b : Value) : Except Failure Value :=
  match a, b with
  | .exact m, .exact n =>
    if symbol = .power ∧ n < 0 then decimalOperate desk symbol a.toDecimal b.toDecimal
    else exactOperate symbol m n
  | _, _ => decimalOperate desk symbol a.toDecimal b.toDecimal

/-! ## Postfix signs -/

/-- The text of a value with a sign behind it. -/
def signed (v : Value) (sign : Char) : Except Fault Text := v.text.map (· ++ [sign])

/-- The factorial of a decimal: of a whole one as a product, of any other through Gamma. -/
def decimalFactorial (d : Decimal) : Except ArithmeticFault Value :=
  if d.isIntegral && (!d.isNegative || d.isZero) then
    let n := d.toInt
    if desk.exact.isOn && n ≤ exactFactorialLimit then (Counting.factorial n).map .exact
    else .ok (.decimal (desk.context.factorial n))
  else ofDouble desk (do (← d.toDouble).add (Double.ofNat 1) |>.gamma)

def factorial (v : Value) : Except Failure Value :=
  match v with
  | .exact n =>
    if n < 0 then
      match v.text with
      | .ok shown => .error (.problem (.negativeFactorial shown))
      | .error fault => .error (.fault fault)
    else named (signed v '!') ((Counting.factorial n).map .exact)
  | .decimal d => named (signed v '!') (decimalFactorial desk d)

/-- A hundredth of an integer, as the nearest double. -/
def hundredth (n : Int) : Except ArithmeticFault Double :=
  let x := Double.ofRatio (n < 0) n.natAbs 100
  if x.isInfinite then .error .quotientTooLarge else .ok x

def percent (v : Value) : Except Failure Value :=
  match v with
  | .exact n => named (signed v '%') (ofDouble desk (hundredth n))
  | .decimal d => .ok (.decimal (desk.context.div d (Decimal.ofNat 100)))

/-! ## Functions -/

/-- An angle in the unit of the desk as a double in radians. -/
def toRadians (v : Value) : Except ArithmeticFault Double :=
  if desk.inDegrees then
    let ctx := desk.context
    (ctx.div (ctx.mul v.toDecimal ctx.pi) (Decimal.ofNat 180)).toDouble
  else v.toDouble

/-- An angle in radians as a decimal in the unit of the desk. -/
def fromRadians (x : Double) : Decimal :=
  let ctx := desk.context
  let d := ctx.ofDouble x
  if desk.inDegrees then ctx.div (ctx.mul d (Decimal.ofNat 180)) ctx.pi else d

def ofAngle (f : Double → Except ArithmeticFault Double) (v : Value) :
    Except ArithmeticFault Value := do
  ofDouble desk (f (← toRadians desk v))

def toAngle (f : Double → Except ArithmeticFault Double) (v : Value) :
    Except ArithmeticFault Value := do
  return .decimal (fromRadians desk (← f (← v.toDouble)))

def inDoubles (f : Double → Except ArithmeticFault Double) (v : Value) :
    Except ArithmeticFault Value := do
  ofDouble desk (f (← v.toDouble))

def magnitude : Value → Value
  | .exact n => .exact n.natAbs
  | .decimal d => .decimal (desk.context.abs d)

/-- A root through doubles. -/
def root (a n : Value) : Except ArithmeticFault Value :=
  ofDouble desk (do
    let x ← a.toDouble
    let y ← n.toDouble
    Double.pow x (← (Double.ofNat 1).quotient y))

/-- A count of choices: on whole numbers exactly or as a decimal, else through Gamma. -/
def count (exact : Int → Int → Int) (rounded : Int → Int → Decimal)
    (general : Double → Double → Except ArithmeticFault Double) (n r : Value) :
    Except ArithmeticFault Value :=
  if n.isIntegral && r.isIntegral then
    if desk.exact.isOn then .ok (.exact (exact n.toInt r.toInt))
    else .ok (.decimal (rounded n.toInt r.toInt))
  else ofDouble desk (do general (← n.toDouble) (← r.toDouble))

def applyOne (f : Function) (v : Value) : Except ArithmeticFault Value :=
  match f with
  | .sin => ofAngle desk Double.sin v
  | .cos => ofAngle desk Double.cos v
  | .tan => ofAngle desk Double.tan v
  | .asin => toAngle desk Double.asin v
  | .acos => toAngle desk Double.acos v
  | .atan => toAngle desk Double.atan v
  | .sinh => inDoubles desk Double.sinh v
  | .cosh => inDoubles desk Double.cosh v
  | .tanh => inDoubles desk Double.tanh v
  | .asinh => inDoubles desk Double.asinh v
  | .acosh => inDoubles desk Double.acosh v
  | .atanh => inDoubles desk Double.atanh v
  | .ln => inDoubles desk Double.log v
  | .log => inDoubles desk Double.log10 v
  | .sqrt => inDoubles desk Double.squareRoot v
  | .exp => inDoubles desk Double.exp v
  | .gamma => inDoubles desk Double.gamma v
  | .erf => inDoubles desk Double.erf v
  | _ => .ok (magnitude desk v)

def applyTwo (f : Function) (a b : Value) : Except ArithmeticFault Value :=
  match f with
  | .root => root desk a b
  | .ncr => count desk Counting.choose desk.context.choose Double.choose a b
  | _ => count desk Counting.arrange desk.context.arrange Double.arrange a b

/-- A function of a list of arguments of the right length. -/
def apply (f : Function) (arguments : List Value) : Except Failure Value :=
  match arguments with
  | [v] => named (.ok f.name) (applyOne desk f v)
  | [a, b] => named (.ok f.name) (applyTwo desk f a b)
  | _ => .error (.problem (.arityMismatch f.name f.arity arguments.length))

/-! ## Items that stack a value -/

/-- The number that a text writes, rounded; a NaN if it writes none. -/
def number (t : Text) : Value :=
  .decimal (desk.context.plus ((Decimal.read? t).getD Decimal.invalid))

/-- A constant; every name but those of pi and e stands for the last answer. -/
def constant (name : Text) : Value :=
  if name = ['p', 'i'] then .decimal desk.context.pi
  else if name = ['e'] then .decimal desk.context.e
  else desk.answer

end DeskCalculator.Operations

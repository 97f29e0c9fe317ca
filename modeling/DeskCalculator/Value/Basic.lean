import DeskCalculator.Decimal.Arithmetic
import DeskCalculator.Decimal.Numeral
import DeskCalculator.Double.Shortest
import DeskCalculator.Fault
import DeskCalculator.Text.Integer

/-!
# Values

What the calculator computes with: exact integers of any size, and decimals rounded to the precision
in force. This module also holds every passage from one kind of number to another. A double becomes
a decimal through its shortest text, not through its binary expansion.
-/

namespace DeskCalculator

inductive Value where
  | exact (n : Int)
  | decimal (d : Decimal)
  deriving DecidableEq, Repr

namespace Value

def isExact : Value → Bool
  | exact _ => true
  | decimal _ => false

def isIntegral : Value → Bool
  | exact _ => true
  | decimal d => d.isIntegral

/-- Whether a value is an integer or a finite decimal. -/
def isFinite : Value → Bool
  | exact _ => true
  | decimal d => d.isFinite

/-- The value as a decimal, not rounded. -/
def toDecimal : Value → Decimal
  | exact n => Decimal.ofInt n
  | decimal d => d

def toInt : Value → Int
  | exact n => n
  | decimal d => d.toInt

/-- The text that shows every particular of a value; an integer may be too long for it. -/
def text : Value → Except Fault Text
  | exact n => match Text.Integer.write? n with
    | some t => .ok t
    | none => .error .integerTooLong
  | decimal d => .ok d.text

end Value

namespace Decimal

/-- The nearest double; infinite beyond the largest one. -/
def toDouble : Decimal → Except ArithmeticFault Double
  | finite s c e => .ok (Double.ofScientific s c e)
  | infinite s => .ok (.infinite s)
  | nan _ signaling _ => if signaling then .error .signalingNaN else .ok .nan

/-- The decimal that the shortest text of a double reads as. -/
def ofDouble : Double → Decimal
  | .finite s m q =>
    if m = 0 then finite s 0 (-1)
    else
      let (c, e) := Double.shortest (.finite s m q)
      let (c, e) := Double.stripZeros c e
      let leading := leadingExponent c e
      -- A whole number written in place has one zero after its point.
      if 0 ≤ e ∧ leading < 16 then finite s (c * Nat.pow 10 (e.toNat + 1)) (-1) else finite s c e
  | .infinite s => infinite s
  | .nan => nan false false 0

def ofDoubleExactly : Double → Decimal
  | .finite s m q =>
    if m = 0 then finite s 0 0
    else if 0 ≤ q then finite s (m * Nat.pow 2 q.toNat) 0
    else
      -- An odd mantissa needs as many decimal places as binary ones.
      let twos := halvings m 60
      let places := (-q).toNat - twos
      if twos ≤ (-q).toNat then finite s (m / Nat.pow 2 twos * Nat.pow 5 places) (-(places : Int))
      else finite s (m / Nat.pow 2 (-q).toNat) 0
  | .infinite s => infinite s
  | .nan => nan false false 0
where
  /-- How many times two divides `m`, at most `limit`. -/
  halvings (m : Nat) : (limit : Nat) → Nat
    | 0 => 0
    | limit + 1 => if m % 2 = 0 then halvings (m / 2) limit + 1 else 0

end Decimal

def Value.toDouble : Value → Except ArithmeticFault Double
  | .exact n => .ok (Double.ofInt n)
  | .decimal d => d.toDouble

def Context.ofDouble (ctx : Context) (x : Double) : Decimal := ctx.plus (Decimal.ofDouble x)

end DeskCalculator

import DeskCalculator.Numeral.Length
import DeskCalculator.Numeral.Rounding

/-!
# Decimal numbers

A finite decimal is a sign, a coefficient and an exponent of ten, so that `1.50` and `1.5` are
different decimals of the same value and zero has a sign and an exponent. Besides there are the two
infinities and the values that are not a number, with a sign, a payload and the flag that makes them
signaling.

A `Context` says how results are rounded. `Context.round` is the one place where a result is fitted
to a context: to its precision, and to its range of exponents, where small numbers lose digits
before they vanish and large ones become infinite.
-/

namespace DeskCalculator

inductive Decimal where
  | finite (negative : Bool) (coefficient : Nat) (exponent : Int)
  | infinite (negative : Bool)
  | nan (negative signaling : Bool) (payload : Nat)
  deriving DecidableEq, Repr

namespace Decimal

def ofInt (n : Int) : Decimal := finite (n < 0) n.natAbs 0

def ofNat (n : Nat) : Decimal := finite false n 0

def zero : Decimal := ofNat 0

def one : Decimal := ofNat 1

def isFinite : Decimal → Bool
  | finite .. => true
  | _ => false

def isZero : Decimal → Bool
  | finite _ 0 _ => true
  | _ => false

/-- The sign bit. -/
def isNegative : Decimal → Bool
  | finite s _ _ | infinite s | nan s _ _ => s

/-- The exponent that the first digit of `c * 10 ^ e` stands for. -/
def leadingExponent (c : Nat) (e : Int) : Int := e + Numeral.digitCount c - 1

def isWhole (c : Nat) (e : Int) : Bool :=
  c == 0 || 0 ≤ e || (-e < Numeral.digitCount c && c % Nat.pow 10 (-e).toNat == 0)

/-- Whether a decimal is finite and whole. -/
def isIntegral : Decimal → Bool
  | finite _ c e => isWhole c e
  | _ => false

/-- The integer part of a finite decimal, zero for the rest. -/
def toInt : Decimal → Int
  | finite s c e =>
    let n : Nat := if 0 ≤ e then c * Nat.pow 10 e.toNat else c / Nat.pow 10 (-e).toNat
    if s then -(n : Int) else n
  | _ => 0

/-- Whether a finite decimal is below `10 ^ k` in magnitude. -/
def isBelowPower (k : Int) : Decimal → Bool
  | finite _ c e => c == 0 || leadingExponent c e < k
  | _ => false

end Decimal

/-- The precision, rounding and exponent range of a computation. -/
structure Context where
  precision : Nat
  rounding : Rounding
  /-- The largest exponent of a first digit. -/
  maxExponent : Int
  /-- The smallest exponent of a first digit that keeps the full precision. -/
  minExponent : Int
  deriving DecidableEq, Repr

namespace Context

/-- The smallest exponent of a last digit. -/
def tiny (c : Context) : Int := c.minExponent - (c.precision - 1)

/-- The nearest decimal of the context to `±n * 10 ^ e`. A number that needs no rounding keeps its
coefficient and exponent. -/
def round (ctx : Context) (negative : Bool) (n : Nat) (e : Int) : Decimal :=
  if n = 0 then .finite negative 0 (max ctx.tiny (min e ctx.maxExponent))
  else
    let digits := Numeral.digitCount n
    if ctx.maxExponent < e + digits - 1 then .infinite negative
    else
      let last := max ctx.tiny (e + digits - ctx.precision)
      if last ≤ e then .finite negative n e
      else
        let drop := (last - e).toNat
        -- With more digits to drop than there are, less than a tenth of a unit remains.
        let q := if digits < drop then 0 else ctx.rounding.divide n (Nat.pow 10 drop)
        -- Rounding up may carry into one digit more.
        let (q, last) :=
          if q = Nat.pow 10 ctx.precision then (Nat.pow 10 (ctx.precision - 1), last + 1)
          else (q, last)
        if ctx.maxExponent < Decimal.leadingExponent q last then .infinite negative
        else .finite negative q last

end Context

end DeskCalculator

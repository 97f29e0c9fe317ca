import DeskCalculator.Double.Basic

/-!
# Arithmetic on doubles

Sum, difference, product, quotient and square root, each the double nearest to the exact result. A
zero sum of opposite numbers is positive. Division by zero is left to the caller: here it gives an
infinity, or a NaN for zero over zero.
-/

namespace DeskCalculator.Double

/-- `±n / d` from a signed numerator, with the sign that zero takes. -/
def ofSignedRatio (zeroNegative : Bool) (n : Int) (d : Nat) : Double :=
  if n = 0 then signedZero zeroNegative else ofRatio (n < 0) n.natAbs d

def add : Double → Double → Double
  | nan, _ | _, nan => nan
  | infinite s, infinite t => if s = t then infinite s else nan
  | infinite s, finite .. => infinite s
  | finite .., infinite t => infinite t
  | a@(finite s ..), b@(finite t ..) =>
    let (n, d) := a.toRatio
    let (m, c) := b.toRatio
    ofSignedRatio (s && t) (n * c + m * d) (d * c)

def sub (a b : Double) : Double := a.add b.neg

def mul : Double → Double → Double
  | nan, _ | _, nan => nan
  | infinite s, b => if b.isZero then nan else infinite (s != b.isNegative)
  | a, infinite t => if a.isZero then nan else infinite (a.isNegative != t)
  | a@(finite s ..), b@(finite t ..) =>
    let (n, d) := a.toRatio
    let (m, c) := b.toRatio
    ofRatio (s != t) (n * m).natAbs (d * c)

def div : Double → Double → Double
  | nan, _ | _, nan => nan
  | infinite _, infinite _ => nan
  | infinite s, b => infinite (s != b.isNegative)
  | a, infinite t => signedZero (a.isNegative != t)
  | a@(finite s ..), b@(finite t ..) =>
    let (n, d) := a.toRatio
    let (m, c) := b.toRatio
    if m = 0 then (if n = 0 then nan else infinite (s != t))
    else ofRatio (s != t) (n.natAbs * c) (d * m.natAbs)

/-- The square root. With the root taken to 60 places more than needed and its last place raised if
a remainder is left, no rounding boundary lies between it and the exact root. -/
def sqrt : Double → Double
  | nan => nan
  | infinite s => if s then nan else infinite s
  | finite s m q =>
    if m = 0 then finite s m q
    else if s then nan
    else
      let even := if q % 2 = 0 then q else q - 1
      let n := (if q % 2 = 0 then m else 2 * m) * Nat.pow 4 60
      let root := n.sqrt
      ofDyadic false (if root * root = n then 2 * root else 2 * root + 1) (even / 2 - 61)

end DeskCalculator.Double

import DeskCalculator.Numeral.Rounding

/-!
# Double precision numbers

A finite double is a sign and a magnitude `m * 2 ^ q` with `m < 2 ^ 53` and `-1074 ≤ q`; among the
ways to write a magnitude the one with the smallest `q` is taken, so that equal doubles are equal.
Zero has a sign. `Double.ofRatio` rounds a quotient of natural numbers to the nearest double, ties
to the even mantissa; every operation below is an exact result put through it.
-/

namespace DeskCalculator

inductive Double where
  | finite (negative : Bool) (mantissa : Nat) (exponent : Int)
  | infinite (negative : Bool)
  | nan
  deriving DecidableEq, Repr

namespace Double

/-- The exponent of the smallest positive double. -/
def minExponent : Int := -1074

/-- The exponent of the largest finite double. -/
def maxExponent : Int := 971

def signedZero (negative : Bool) : Double := finite negative 0 minExponent

def zero : Double := signedZero false

/-- `n * 2 ^ e` as a quotient of natural numbers. -/
def dyadic (n : Nat) (e : Int) : Nat × Nat :=
  (n * Nat.pow 2 e.toNat, Nat.pow 2 (-e).toNat)

/-- The largest `k` with `2 ^ k ≤ n / d`, for positive `n` and `d`. -/
def floorLog2 (n d : Nat) : Int :=
  let k : Int := (n.log2 : Int) - d.log2
  if d * Nat.pow 2 k.toNat ≤ n * Nat.pow 2 (-k).toNat then k else k - 1

/-- The double nearest to `±n / d`. Beyond the largest double the result is infinite. -/
def ofRatio (negative : Bool) (n d : Nat) : Double :=
  if n = 0 then signedZero negative
  else
    let q := max (floorLog2 n d - 52) minExponent
    let m := Rounding.halfEven.divide (n * Nat.pow 2 (-q).toNat) (d * Nat.pow 2 q.toNat)
    let (m, q) := if m = Nat.pow 2 53 then (Nat.pow 2 52, q + 1) else (m, q)
    if m = 0 then signedZero negative
    else if maxExponent < q then infinite negative
    else finite negative m q

def ofDyadic (negative : Bool) (n : Nat) (e : Int) : Double :=
  let (p, q) := dyadic n e
  ofRatio negative p q

def ofInt (n : Int) : Double := ofRatio (n < 0) n.natAbs 1

def ofNat (n : Nat) : Double := ofRatio false n 1

/-- The double nearest to `±c * 10 ^ e`. What is out of range by far is settled first, by a power of
ten that is not above `c` and by one that is not below it. -/
def ofScientific (negative : Bool) (c : Nat) (e : Int) : Double :=
  if c = 0 then signedZero negative
  else if 400 < e + (c.log2 * 3 / 10 : Nat) then infinite negative
  else if e + (c.log2 / 3 + 1 : Nat) < -400 then signedZero negative
  else ofRatio negative (c * Nat.pow 10 e.toNat) (Nat.pow 10 (-e).toNat)

def isInfinite : Double → Bool
  | infinite _ => true
  | _ => false

def isFinite : Double → Bool
  | finite .. => true
  | _ => false

def isZero : Double → Bool
  | finite _ 0 _ => true
  | _ => false

def isNegative : Double → Bool
  | finite s _ _ | infinite s => s
  | nan => false

def neg : Double → Double
  | finite s m q => finite (!s) m q
  | infinite s => infinite (!s)
  | nan => nan

def abs : Double → Double
  | finite _ m q => finite false m q
  | infinite _ => infinite false
  | nan => nan

/-- The value of a finite double as a signed numerator over a denominator; zero for the rest. -/
def toRatio : Double → Int × Nat
  | finite s m q =>
    let (n, d) := dyadic m q
    (if s then -(n : Int) else n, d)
  | _ => (0, 1)

def isWhole : Double → Bool
  | finite _ m q => 0 ≤ q || m % Nat.pow 2 (-q).toNat == 0
  | _ => false

/-- A finite double rounded toward zero; zero for the rest. -/
def truncate : Double → Int
  | finite s m q =>
    let n : Nat := if 0 ≤ q then m * Nat.pow 2 q.toNat else m / Nat.pow 2 (-q).toNat
    if s then -(n : Int) else n
  | _ => 0

/-- The order of the doubles; a NaN is not below anything. -/
def lt : Double → Double → Bool
  | nan, _ | _, nan => false
  | infinite s, infinite t => s && !t
  | infinite s, finite .. => s
  | finite .., infinite t => !t
  | a, b =>
    let (n, d) := a.toRatio
    let (m, c) := b.toRatio
    n * c < m * d

end Double

end DeskCalculator

import DeskCalculator.Double.Arithmetic
import DeskCalculator.Enclosure.Functions
import DeskCalculator.Fault

/-!
# Elementary functions on doubles

Each function gives the double nearest to the exact value. This is a choice: what is documented of
these functions leaves the last digit open, and the library of a platform may give a neighbour of
that double. It is found by enclosing the value more and more closely until both ends round to one
double. A NaN gives a NaN; an argument outside the domain is a `domain` fault, as is a pole; a finite
argument with a result beyond the largest double is a `range` fault.
-/

namespace DeskCalculator.Double

/-- The double that both ends of an enclosure round to, if they agree. -/
def ofEnclosure? (b : Nat) (x : Enclosure) : Option Double :=
  let lower := ofSignedRatio false x.lo (Nat.pow 2 b)
  let upper := ofSignedRatio false x.hi (Nat.pow 2 b)
  if lower = upper then some lower else none

/-- The double nearest to the middle of an enclosure, taken to half its places. An exact value that
lies half way between two doubles never shows in the ends, and is found here. -/
def ofMiddle (b : Nat) (x : Enclosure) : Double :=
  let half := b / 2
  let middle := Rounding.halfUp.divide (x.lo + x.hi).natAbs (Nat.pow 2 (b - half + 1))
  ofRatio (x.lo + x.hi < 0) middle (Nat.pow 2 half)

/-- Encloses a value with more and more places until it rounds to one double. -/
def settle (f : Nat → Enclosure) (b : Nat) : (attempts : Nat) → Double
  | 0 => ofMiddle b (f b)
  | attempts + 1 =>
    match ofEnclosure? b (f b) with
    | some x => x
    | none => settle f (2 * b) attempts

/-- Places to start with for a value that is no smaller than the argument `n / d`. -/
def startPlaces (n d : Nat) : Nat := 100 + (d.log2 - n.log2)

/-- A function of a finite nonzero argument through its enclosures. -/
def enclosed (f : (b : Nat) → Int → Nat → Enclosure) (x : Double) : Double :=
  let (n, d) := x.toRatio
  settle (fun b => f b n d) (startPlaces n.natAbs d) 4

/-- An infinite result of a finite argument is out of range. -/
def inRange (x : Double) : Except ArithmeticFault Double :=
  if x.isInfinite then .error .range else .ok x

def exceeds (x : Double) (k : Nat) : Bool := (ofNat k).lt x.abs

/-! ## Exponential and logarithms -/

def expFinite (x : Double) : Double :=
  if x.isZero then ofNat 1
  else if x.exceeds 800 then (if x.isNegative then zero else infinite false)
  else
    let (n, d) := x.toRatio
    let places := startPlaces n.natAbs d + 2 * (n.natAbs / d)
    settle (fun b => Enclosure.exp b n d) places 4

def exp : Double → Except ArithmeticFault Double
  | nan => .ok nan
  | infinite s => .ok (if s then zero else infinite false)
  | x => inRange (expFinite x)

/-- A logarithm, given on positive finite doubles other than one. -/
def logBy (f : (b n d : Nat) → Enclosure) : Double → Except ArithmeticFault Double
  | nan => .ok nan
  | infinite s => if s then .error .domain else .ok (infinite false)
  | x =>
    if x.isZero || x.isNegative then .error .domain
    else if x = ofNat 1 then .ok zero
    else .ok (enclosed (fun b n d => f b n.toNat d) x)

def log : Double → Except ArithmeticFault Double := logBy Enclosure.log

def log10 : Double → Except ArithmeticFault Double := logBy Enclosure.log10

def squareRoot (x : Double) : Except ArithmeticFault Double :=
  if x.lt zero then .error .domain else .ok x.sqrt

/-! ## Circular functions -/

/-- A function that has no value at the infinities and keeps zero. -/
def oddCircular (f : (b : Nat) → Int → Nat → Enclosure) : Double → Except ArithmeticFault Double
  | nan => .ok nan
  | infinite _ => .error .domain
  | x => .ok (if x.isZero then x else enclosed f x)

def sin : Double → Except ArithmeticFault Double := oddCircular Enclosure.sin

def tan : Double → Except ArithmeticFault Double := oddCircular Enclosure.tan

def cos : Double → Except ArithmeticFault Double
  | nan => .ok nan
  | infinite _ => .error .domain
  | x => .ok (if x.isZero then ofNat 1 else enclosed Enclosure.cos x)

/-- Half of pi with a sign. -/
def quarterTurn (negative : Bool) : Double :=
  let q := settle (fun b => ((Enclosure.pi b).divNat 2)) 100 4
  if negative then q.neg else q

def pi : Double := settle Enclosure.pi 100 4

def asin : Double → Except ArithmeticFault Double
  | nan => .ok nan
  | infinite _ => .error .domain
  | x =>
    if x.exceeds 1 then .error .domain
    else .ok (if x.isZero then x else enclosed Enclosure.asin x)

def acos : Double → Except ArithmeticFault Double
  | nan => .ok nan
  | infinite _ => .error .domain
  | x =>
    if x.exceeds 1 then .error .domain
    else if x = ofNat 1 then .ok zero
    else .ok (if x.isZero then quarterTurn false else enclosed Enclosure.acos x)

def atan : Double → Except ArithmeticFault Double
  | nan => .ok nan
  | infinite s => .ok (quarterTurn s)
  | x => .ok (if x.isZero then x else enclosed Enclosure.atan x)

/-! ## Hyperbolic functions -/

def sinh : Double → Except ArithmeticFault Double
  | nan => .ok nan
  | infinite s => .ok (infinite s)
  | x =>
    if x.exceeds 800 then .error .range
    else inRange (if x.isZero then x else enclosed Enclosure.sinh x)

def cosh : Double → Except ArithmeticFault Double
  | nan => .ok nan
  | infinite _ => .ok (infinite false)
  | x =>
    if x.exceeds 800 then .error .range
    else inRange (if x.isZero then ofNat 1 else enclosed Enclosure.cosh x)

/-- The hyperbolic tangent. From 22 on it is nearer to one than any other double is. -/
def tanh : Double → Except ArithmeticFault Double
  | nan => .ok nan
  | infinite s => .ok (if s then (ofNat 1).neg else ofNat 1)
  | x =>
    if x.exceeds 22 then .ok (if x.isNegative then (ofNat 1).neg else ofNat 1)
    else .ok (if x.isZero then x else enclosed Enclosure.tanh x)

def asinh : Double → Except ArithmeticFault Double
  | nan => .ok nan
  | infinite s => .ok (infinite s)
  | x => .ok (if x.isZero then x else enclosed Enclosure.asinh x)

def acosh : Double → Except ArithmeticFault Double
  | nan => .ok nan
  | infinite s => if s then .error .domain else .ok (infinite false)
  | x =>
    if x.lt (ofNat 1) then .error .domain
    else if x = ofNat 1 then .ok zero
    else .ok (enclosed (fun b n d => Enclosure.acosh b n.toNat d) x)

def atanh : Double → Except ArithmeticFault Double
  | nan => .ok nan
  | infinite _ => .error .domain
  | x =>
    if !x.abs.lt (ofNat 1) then .error .domain
    else .ok (if x.isZero then x else enclosed Enclosure.atanh x)

/-! ## Powers -/

def isOdd (x : Double) : Bool := x.isWhole && x.truncate % 2 != 0

/-- `n / d` to a whole power, rounded; the sign is given. -/
def powWhole (negative : Bool) (n d : Nat) (k : Int) : Double :=
  if 0 ≤ k then ofRatio negative (Nat.pow n k.toNat) (Nat.pow d k.toNat)
  else ofRatio negative (Nat.pow d (-k).toNat) (Nat.pow n (-k).toNat)

/-- `x ^ y` for positive `x` other than one and nonzero `y`, both finite. Whole powers of few digits
are exact quotients; the rest go through the logarithm. -/
def powPositive (negative : Bool) (x y : Double) : Double :=
  let (n, d) := x.toRatio
  let (p, q) := y.toRatio
  let common := Nat.gcd n.natAbs d
  let length := (n.natAbs / common).log2 + (d / common).log2
  if y.isWhole && length * y.truncate.natAbs ≤ 5000 then
    powWhole negative (n.natAbs / common) (d / common) y.truncate
  else
    let size := p.natAbs.log2 - q.log2
    let exponent (b : Nat) : Enclosure :=
      let w := b + size + 20
      (((Enclosure.log w n.toNat d).scale p).divNat q).dropPlaces (size + 20)
    let coarse := exponent 20
    let limit : Int := 800 * Nat.pow 2 20
    let z :=
      if limit < coarse.lo then infinite false
      else if coarse.hi < -limit then zero
      else
        let places := 120 + (if coarse.lo < 0 then 2 * (coarse.magnitude / Nat.pow 2 20) else 0)
        settle (fun b => Enclosure.expOf b (exponent b)) places 4
    if negative then z.neg else z

/-- `x ^ y` for finite doubles; `none` for a negative `x` and a `y` that is not whole. -/
def powFinite? (x y : Double) : Option Double :=
  let odd := y.isOdd
  if y.isZero || x = ofNat 1 then some (ofNat 1)
  else if x.isZero then
    some (if y.isNegative then infinite (x.isNegative && odd) else signedZero (x.isNegative && odd))
  else if x.isNegative && !y.isWhole then none
  else if x.abs = ofNat 1 then some (if odd then x else ofNat 1)
  else some (powPositive (x.isNegative && odd) x.abs y)

/-- `x ^ y` where one of the two is infinite or a NaN. -/
def powSpecial (x y : Double) : Double :=
  match x, y with
  | nan, _ => if y.isZero then ofNat 1 else nan
  | _, nan => if x = ofNat 1 then ofNat 1 else nan
  | infinite s, _ =>
    let odd := y.isFinite && y.isOdd
    if y.isZero then ofNat 1
    else if y.isNegative then signedZero (s && odd)
    else infinite (s && odd)
  | _, _ =>
    let grows := (ofNat 1).lt x.abs
    if x.abs = ofNat 1 then ofNat 1
    else if grows != y.isNegative then infinite false
    else zero

def pow (x y : Double) : Except ArithmeticFault Double :=
  if !x.isFinite || !y.isFinite then .ok (powSpecial x y)
  else match powFinite? x y with
    | none => .error .domain
    | some z => if z.isInfinite && x.isZero then .error .domain else inRange z

/-- `x / y` with a zero divisor refused. -/
def quotient (x y : Double) : Except ArithmeticFault Double :=
  if y.isZero then .error .zeroDivisor else .ok (x.div y)

end DeskCalculator.Double

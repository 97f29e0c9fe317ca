import DeskCalculator.Decimal.Arithmetic
import DeskCalculator.Enclosure.Functions

/-!
# Exponential and logarithm of decimals

Both are the decimal of the context nearest to the exact value, a tie going to the even digit. The
value is enclosed more and more closely until both ends round to one decimal. An inexact result has
all the digits of the precision.
-/

namespace DeskCalculator

namespace Context

variable (ctx : Context)

/-- The decimal nearest to `±n / d * 10 ^ shift`. The quotient is taken to more digits than the
precision, its last digit raised if it is 0 or 5 and something is left, so that rounding it once
gives the same as rounding the exact quotient. -/
def roundRatio (negative : Bool) (n d : Nat) (shift : Int) : Decimal :=
  let places := (Numeral.digitCount d : Int) - Numeral.digitCount n + ctx.precision + 2
  let p := n * Nat.pow 10 places.toNat
  let m := d * Nat.pow 10 (-places).toNat
  let q := p / m
  ctx.round negative (if p % m ≠ 0 ∧ q % 5 = 0 then q + 1 else q) (shift - places)

/-- One end of an enclosure with `b` places, times `10 ^ shift`, rounded. -/
def roundEnd (b : Nat) (x shift : Int) : Decimal :=
  ctx.roundRatio (x < 0) x.natAbs (Nat.pow 2 b) shift

/-- Encloses a value, given without the factor `10 ^ shift`, with more and more places until it
rounds to one decimal. -/
def settle (shift : Int) (f : Nat → Enclosure) (b : Nat) : (attempts : Nat) → Decimal
  | 0 => ctx.roundEnd b (f b).lo shift
  | attempts + 1 =>
    let x := f b
    let lower := ctx.roundEnd b x.lo shift
    if lower = ctx.roundEnd b x.hi shift then lower else settle shift f (2 * b) attempts

def startPlaces : Nat := 4 * ctx.precision + 60

/-- One with all digits of the precision. -/
def paddedOne (negative : Bool) : Decimal :=
  .finite negative (Nat.pow 10 (ctx.precision - 1)) (-((ctx.precision - 1 : Nat) : Int))

/-- The exponential of `±c * 10 ^ e`, for positive `c`. -/
def expFinite (negative : Bool) (c : Nat) (e : Int) : Decimal :=
  let leading := Decimal.leadingExponent c e
  if 20 ≤ leading then (if negative then .finite false 0 ctx.tiny else .infinite false)
  else if leading < -(ctx.precision + 4 : Nat) then ctx.paddedOne false
  else
    let n : Int := (c * Nat.pow 10 e.toNat : Nat)
    let n := if negative then -n else n
    let d : Nat := Nat.pow 10 (-e).toNat
    -- The nearest whole number of factors of ten.
    let k := Enclosure.floorDiv (2 * n * 434294481903251827651 + d * 1000000000000000000000)
      (2 * d * 1000000000000000000000)
    let size := k.natAbs.log2 + 1
    ctx.settle k (fun b =>
      let w := b + size + Enclosure.guard
      let rest := (Enclosure.ofRatio w n d).sub ((Enclosure.ln10 w).scale k)
      (Enclosure.expSmall w rest).dropPlaces (w - b)) ctx.startPlaces 5

def exp : Decimal → Decimal
  | .finite s c e => if c = 0 then .one else ctx.expFinite s c e
  | .infinite s => if s then .finite false 0 0 else .infinite false
  | x => ctx.quiet x

/-- An enclosure of the logarithm of `c * 10 ^ e`, for positive `c`. Numbers that may be near one
are taken as one quotient. -/
def lnEnclosure (c : Nat) (e : Int) (b : Nat) : Enclosure :=
  if e.natAbs ≤ Numeral.digitCount c + 20 then
    Enclosure.log b (c * Nat.pow 10 e.toNat) (Nat.pow 10 (-e).toNat)
  else
    let size := e.natAbs.log2 + 1
    let w := b + size
    ((Enclosure.log w c 1).add ((Enclosure.ln10 w).scale e)).dropPlaces size

def lnFinite (c : Nat) (e : Int) : Decimal :=
  ctx.settle 0 (lnEnclosure c e) ctx.startPlaces 6

end Context

end DeskCalculator

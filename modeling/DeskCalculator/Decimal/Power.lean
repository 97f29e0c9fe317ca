import DeskCalculator.Decimal.Exponential

/-!
# Powers of decimals

A whole power is found by repeated squaring with extra digits, each product rounded to the even
digit, and is rounded to the context at the end. Any other power is the exponential of the exponent
times the logarithm, again with extra digits and rounded at the end. Powers of zero, of one, of the
infinities and with infinite exponents are settled first.
-/

namespace DeskCalculator

namespace Decimal

/-- Whether a decimal has the value one or minus one. -/
def isUnit : Decimal → Bool
  | finite _ c e => e ≤ 0 && c == Nat.pow 10 (min (-e) (Numeral.digitCount c)).toNat
  | _ => false

def isOdd : Decimal → Bool
  | finite s c e => isWhole c e && e ≤ 0 && toInt (finite s c e) % 2 != 0
  | _ => false

def withSign (negative : Bool) : Decimal → Decimal
  | finite _ c e => finite negative c e
  | infinite _ => infinite negative
  | x => x

def isAboveOne : Decimal → Bool
  | finite _ c e => 0 ≤ leadingExponent c e
  | _ => false

end Decimal

namespace Context

open Decimal

variable (ctx : Context)

/-- Whether squaring can stop: the number is infinite, or has vanished. -/
def isSettled : Decimal → Bool
  | finite _ c _ => c == 0
  | _ => true

/-- `base ^ n` from the leading bits of `n` down: `result` is the power for the bits before `bits`
more. -/
def powBits (base : Decimal) (n : Nat) : (bits : Nat) → Decimal → Decimal
  | 0, result => result
  | bits + 1, result =>
    let square := ctx.mul result result
    let next := if n.testBit bits then ctx.mul square base else square
    if isSettled next then next else powBits base n bits next

/-- `result * base ^ n` from the last bit of `n` up. -/
def powLowBits (fuel n : Nat) (base result : Decimal) : Decimal :=
  match fuel with
  | 0 => result
  | fuel + 1 =>
    if n = 0 then result
    else
      let result := if n % 2 = 1 then ctx.mul result base else result
      if n % 2 = 1 && isSettled result then result
      else powLowBits fuel (n / 2) (ctx.mul base base) result

/-- `base ^ n` for positive `n`. Exponents beyond a machine word go from the last bit up. -/
def powNat (base : Decimal) (n : Nat) : Decimal :=
  if n < Nat.pow 2 64 then ctx.powBits base n n.log2 base
  else ctx.powLowBits (n.log2 + 1) n base .one

/-- A context with the given precision that rounds ties to even. -/
def working (precision : Nat) : Context := { ctx with precision, rounding := .halfEven }

/-- The number fitted to the context, without a change of the sign of zero. -/
def fit : Decimal → Decimal
  | finite s c e => ctx.round s c e
  | infinite s => infinite s
  | x => ctx.quiet x

/-- `base ^ n` for a whole `n` other than zero, with the sign given. -/
def powInt (negative : Bool) (base : Decimal) (n : Int) : Decimal :=
  let extra := Numeral.digitCount n.natAbs + 2
  let result :=
    if n < 0 then
      let work := ctx.working (ctx.precision + extra + 1)
      work.powNat (work.div .one base) n.natAbs
    else (ctx.working (ctx.precision + extra)).powNat base n.natAbs
  ctx.fit (result.withSign negative)

/-- `base ^ y` for a positive finite base and a finite `y` that is not whole. -/
def powReal (base y : Decimal) : Decimal :=
  match base with
  | finite _ c e =>
    let work := ctx.working (max (Numeral.digitCount c) ctx.precision + 23)
    let result := work.exp (work.mul (work.lnFinite c e) y)
    if result.isUnit then ctx.paddedOne false else ctx.fit result
  | _ => invalid

def powUnit (negative : Bool) (base y : Decimal) : Decimal :=
  match base, y with
  | finite _ _ e, finite s _ _ =>
    if y.isIntegral then
      let zeros := if s then 0 else min (y.toInt.toNat * (-e).toNat) (ctx.precision - 1)
      finite negative (Nat.pow 10 zeros) (-(zeros : Int))
    else ctx.paddedOne negative
  | _, _ => invalid

def pow (base y : Decimal) : Decimal :=
  if base.isNaN || y.isNaN then ctx.passNaN base y
  else
    let negative := base.isNegative && y.isOdd
    if base.isZero then
      if y.isZero then invalid
      else if y.isNegative then infinite negative
      else finite negative 0 0
    else if base.isNegative && !y.isIntegral then invalid
    else if !y.isFinite then
      if base.isUnit then ctx.paddedOne negative
      else if (base.isAboveOne || !base.isFinite) != y.isNegative then infinite negative
      else finite negative 0 0
    else if !base.isFinite then
      if y.isZero then finite negative 1 0
      else if y.isNegative then finite negative 0 0
      else infinite negative
    else if y.isZero then finite negative 1 0
    else if base.isUnit then ctx.powUnit negative base y
    else if y.isIntegral then ctx.powInt negative (base.withSign false) y.toInt
    else ctx.powReal base y

end Context

end DeskCalculator

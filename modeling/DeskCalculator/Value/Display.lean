import DeskCalculator.Value.Basic

/-!
# Values as text

A value has two texts. `display` is for people: whole numbers below `10 ^ 21` with a comma before
every third digit, magnitudes below `10 ^ -6` with ten places and an exponent, zero among them, and
all else rounded to twelve digits. `plain` is for an expression: all digits in place, without
grouping and without zeros at the end of a fraction. The notation is chosen by the magnitude after
rounding it to 28 digits.
-/

namespace DeskCalculator

/-- The context in which a magnitude is taken before its notation is chosen. -/
def magnitudeContext : Context where
  precision := 28
  rounding := .halfEven
  maxExponent := 999999
  minExponent := -999999

def displayContext : Context where
  precision := 12
  rounding := .halfUp
  maxExponent := 999999
  minExponent := -999999

namespace Decimal

/-- The same number without zeros at the end of its coefficient. -/
def normalize : Decimal → Decimal
  | finite s c e =>
    if c = 0 then finite s 0 0
    else
      let zeros := Numeral.trailingZeros c (Numeral.digitCount c)
      finite s (c / Nat.pow 10 zeros) (e + zeros)
  | x => x

/-- Eleven digits, ten of them after the point, and the exponent; a tie goes to the even digit. -/
def withTenPlaces : Decimal → Text
  | finite s c e =>
    let digits := Numeral.digitCount c
    let drop := digits - 11
    let pad := 11 - digits
    let q := Rounding.halfEven.divide (c * Nat.pow 10 pad) (Nat.pow 10 drop)
    let e := e - pad + drop
    exponential (if q = Nat.pow 10 11 then finite s (Nat.pow 10 10) (e + 1) else finite s q e)
  | x => specialText x

/-- Zero with ten places. -/
def zeroText (negative : Bool) : Text := signText negative ++ Text.ofString "0.0000000000e+0"

/-- Positional below `10 ^ 21` and down to `10 ^ -6`, exponential elsewhere. -/
def positionalOrExponential : Decimal → Text
  | finite s c e =>
    let leading := leadingExponent c e
    if -7 < leading ∧ leading < 21 then fixed (finite s c e) else exponential (finite s c e)
  | x => specialText x

/-- The text of a decimal for people. A decimal with an exponent beyond the range of the display is
a fault. -/
def display (d : Decimal) : Except Fault Text :=
  match d with
  | finite s _ _ =>
    let magnitude := magnitudeContext.abs d
    if !magnitude.isFinite then .error .displayOverflow
    else if magnitude.isZero then .ok (zeroText s)
    else if magnitude.isBelowPower (-6) then .ok d.withTenPlaces
    else if d.isIntegral && magnitude.isBelowPower 21 then
      .ok (signText s ++ Text.group (Text.ofNat d.toInt.natAbs))
    else
      let rounded := displayContext.plus d
      if rounded.isFinite then .ok rounded.normalize.positionalOrExponential
      else .error .displayOverflow
  | x => .ok (specialText x)

/-- A text without zeros at the end, and without a point left at the end by that. -/
def stripFraction (t : Text) : Text :=
  let kept := t.reverse.dropWhile (· = '0')
  (match kept with
    | '.' :: rest => rest
    | kept => kept).reverse

/-- All digits in place, without zeros at the end of a fraction. -/
def plain (d : Decimal) : Text :=
  if d.fixed.contains '.' then stripFraction d.fixed else d.fixed

end Decimal

namespace Value

def display : Value → Except Fault Text
  | exact n =>
    if n.natAbs < Nat.pow 10 21 then
      .ok (Decimal.signText (n < 0) ++ Text.group (Text.ofNat n.natAbs))
    else text (exact n)
  | decimal d => d.display

def plain : Value → Except Fault Text
  | exact n => text (exact n)
  | decimal d => .ok d.plain

end Value

end DeskCalculator

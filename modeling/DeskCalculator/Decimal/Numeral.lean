import DeskCalculator.Decimal.Basic
import DeskCalculator.Text.Blank
import DeskCalculator.Text.Digit

/-!
# Decimals as text

`Decimal.text` is the scientific form that keeps every particular of a decimal: its trailing zeros,
its exponent, the sign of zero, the payload of a NaN. `Decimal.read?` reads a decimal exactly, or
refuses what is no numeral or has an exponent that no decimal can hold. Blanks around the numeral
and underscores anywhere are skipped, and digits of any script count.

`fixed` and `exponential` are the two notations for display: all digits in place, or one digit
before the point and the exponent after an `e`.
-/

namespace DeskCalculator

namespace Decimal

def signText (negative : Bool) : Text := if negative then ['-'] else []

/-- Digits with a point before the last `places` of them, padded with zeros at the front. -/
def withPoint (digits : Text) (places : Nat) : Text :=
  if places = 0 then digits
  else
    let padded := List.replicate (places + 1 - digits.length) '0' ++ digits
    padded.take (padded.length - places) ++ '.' :: padded.drop (padded.length - places)

/-- One digit, and the others after a point if there are any. -/
def withLeadingPoint : Text → Text
  | d :: rest@(_ :: _) => d :: '.' :: rest
  | short => short

def exponentText (e : Int) : Text :=
  if e < 0 then '-' :: Text.ofNat e.natAbs else '+' :: Text.ofNat e.natAbs

/-- The text of an infinity or a NaN. -/
def specialText : Decimal → Text
  | infinite s => signText s ++ Text.ofString "Infinity"
  | nan s signaling payload =>
    signText s ++ Text.ofString (if signaling then "sNaN" else "NaN") ++
      (if payload = 0 then [] else Text.ofNat payload)
  | finite .. => []

/-- The scientific text of a decimal. -/
def text : Decimal → Text
  | finite s c e =>
    let digits := Text.ofNat c
    let leading := e + digits.length - 1
    signText s ++
      if e ≤ 0 ∧ -6 ≤ leading then withPoint digits (-e).toNat
      else withLeadingPoint digits ++ 'E' :: exponentText leading
  | x => specialText x

/-- All digits in place, without an exponent. -/
def fixed : Decimal → Text
  | finite s c e =>
    signText s ++
      if c = 0 ∧ 0 < e then ['0']
      else if 0 < e then Text.ofNat c ++ List.replicate e.toNat '0'
      else withPoint (Text.ofNat c) (-e).toNat
  | x => specialText x

/-- One digit before the point, all others after it, then the exponent. -/
def exponential : Decimal → Text
  | finite s c e =>
    let digits := Text.ofNat c
    signText s ++ withLeadingPoint digits ++ 'e' :: exponentText (e + digits.length - 1)
  | x => specialText x

/-! ## Reading -/

/-- Precision and exponent range that every decimal fits into. -/
def widest : Context where
  precision := 999999999999999999
  rounding := .halfEven
  maxExponent := 999999999999999999
  minExponent := -999999999999999999

/-- Whether a finite decimal fits into the widest exponent range as it is. -/
def isStorable (c : Nat) (e : Int) : Bool :=
  widest.tiny ≤ e &&
    (if c = 0 then e ≤ widest.maxExponent else leadingExponent c e ≤ widest.maxExponent)

/-- Blanks at the ends and underscores taken off, and every digit an ASCII one. `none` if a
character beyond ASCII is neither a digit nor a blank. -/
def plainNumeral? (t : Text) : Option Text :=
  ((Text.trim t).filter (· ≠ '_')).mapM fun c =>
    if 0 < c.toNat ∧ c.toNat < 128 then some c
    else if Text.isBlank c then some ' '
    else (Text.wideDigit? c).map Text.digitChar

def readSign : Text → Bool × Text
  | '-' :: rest => (true, rest)
  | '+' :: rest => (false, rest)
  | rest => (false, rest)

def readDigits (t : Text) : Text × Text := t.span Char.isDigit

/-- The whole text as digits, at least one. -/
def allDigits? (t : Text) : Option Nat :=
  if t ≠ [] ∧ t.all Char.isDigit then some (Text.toNat t) else none

/-- An exponent: nothing, or an `e` with an integer. -/
def readExponent? : Text → Option Int
  | [] => some 0
  | c :: rest =>
    if c = 'e' ∨ c = 'E' then
      let (negative, digits) := readSign rest
      (allDigits? digits).map fun n => if negative then -(n : Int) else n
    else none

def readFraction : Text → Text × Text
  | '.' :: rest => readDigits rest
  | rest => ([], rest)

/-- An unsigned finite numeral as its coefficient and exponent. -/
def readFinite? (t : Text) : Option (Nat × Int) := do
  let (whole, rest) := readDigits t
  let (fraction, rest) := readFraction rest
  let e ← readExponent? rest
  let digits := whole ++ fraction
  if digits = [] then none
  else return (Text.toNat digits, e - fraction.length)

def readPayload? : Text → Option Nat
  | [] => some 0
  | t => allDigits? t

def ofPlainNumeral? (t : Text) : Option Decimal :=
  let (negative, rest) := readSign t
  let word := Text.lower rest
  if word = Text.ofString "inf" ∨ word = Text.ofString "infinity" then some (infinite negative)
  else if Text.startsWith (Text.ofString "nan") word then
    (readPayload? (rest.drop 3)).map (nan negative false)
  else if Text.startsWith (Text.ofString "snan") word then
    (readPayload? (rest.drop 4)).map (nan negative true)
  else do
    let (c, e) ← readFinite? rest
    if isStorable c e then some (finite negative c e) else none

/-- Reads a decimal exactly. -/
def read? (t : Text) : Option Decimal := plainNumeral? t >>= ofPlainNumeral?

end Decimal

end DeskCalculator

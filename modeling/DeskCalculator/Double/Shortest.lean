import DeskCalculator.Double.Basic
import DeskCalculator.Decimal.Numeral

/-!
# Doubles as text

`Double.shortest` is the shortest digit string that reads back as the double, and of the strings of
that length the one nearest to it. `Double.text` writes it: in place for a first digit between the
fourth place after the point and the sixteenth before it, with a point and at least one digit after
it; with an exponent of two digits or more otherwise.
-/

namespace DeskCalculator.Double

/-- The largest `k` with `10 ^ k ≤ n / d`, for positive `n` and `d`. -/
def floorLog10 (n d : Nat) : Int :=
  let k : Int := (Numeral.digitCount n : Int) - Numeral.digitCount d
  if d * Nat.pow 10 k.toNat ≤ n * Nat.pow 10 (-k).toNat then k else k - 1

/-- The whole number nearest to `n / d` among the two neighbours that pass the test. -/
def nearestPassing (test : Nat → Bool) (n d : Nat) : Option Nat :=
  let low := n / d
  match test low, test (low + 1) with
  | true, true => some (Rounding.halfEven.divide n d)
  | true, false => some low
  | false, true => some (low + 1)
  | false, false => none

/-- The shortest digits `c` and exponent `e` with `c * 10 ^ e` reading back as a positive finite
double, among those with at least `17 - fuel` digits. -/
def shortestFrom (x : Double) (n d : Nat) (leading : Int) : (fuel : Nat) → Nat × Int
  | 0 => (n / d, 0)
  | fuel + 1 =>
    let e := leading - (16 - fuel : Nat)
    let candidate := nearestPassing (fun c => ofScientific false c e == x)
      (n * Nat.pow 10 (-e).toNat) (d * Nat.pow 10 e.toNat)
    match candidate with
    | some c => (c, e)
    | none => shortestFrom x n d leading fuel

/-- The shortest digits and exponent that read back as the magnitude of a nonzero finite double. -/
def shortest (x : Double) : Nat × Int :=
  let (n, d) := x.abs.toRatio
  shortestFrom x.abs n.natAbs d (floorLog10 n.natAbs d) 17

/-- Digits without the zeros at their end, and the exponent that makes up for them. -/
def stripZeros (c : Nat) (e : Int) : Nat × Int :=
  let zeros := Numeral.trailingZeros c 20
  (c / Nat.pow 10 zeros, e + zeros)

/-- An exponent with its sign and two digits or more. -/
def exponentText (e : Int) : Text :=
  let digits := Text.ofNat e.natAbs
  (if e < 0 then '-' else '+') :: List.replicate (2 - digits.length) '0' ++ digits

def digitsText (c : Nat) (e : Int) : Text :=
  let digits := Text.ofNat c
  let leading := e + digits.length - 1
  if -4 ≤ leading ∧ leading < 16 then
    if 0 ≤ e then digits ++ List.replicate e.toNat '0' ++ ['.', '0']
    else Decimal.withPoint digits (-e).toNat
  else Decimal.withLeadingPoint digits ++ 'e' :: exponentText leading

def text : Double → Text
  | nan => Text.ofString "nan"
  | infinite s => Decimal.signText s ++ Text.ofString "inf"
  | finite s m q =>
    if m = 0 then Decimal.signText s ++ Text.ofString "0.0"
    else
      let (c, e) := shortest (finite s m q)
      let (c, e) := stripZeros c e
      Decimal.signText s ++ digitsText c e

def read? (t : Text) : Option Double :=
  (Decimal.ofPlainNumeral? (Text.trim t)).map fun
    | .finite s c e => ofScientific s c e
    | .infinite s => infinite s
    | .nan .. => nan

end DeskCalculator.Double

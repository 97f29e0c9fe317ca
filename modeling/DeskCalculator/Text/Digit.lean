import DeskCalculator.Text.Basic

/-!
# Decimal digits

`Text.digit?` is the value of a character with the Unicode property of a decimal digit: `0` to `9`
and the ten consecutive characters after each zero in `zeros`. Inside numbers that are typed or
stored, digits of any script count; the lexemes of an expression admit the ASCII ones only.
-/

namespace DeskCalculator.Text

/-- The zero digits of the scripts beyond ASCII, in ascending order. -/
def zeros : List Nat := [
  0x660, 0x6F0, 0x7C0, 0x966, 0x9E6, 0xA66, 0xAE6, 0xB66, 0xBE6, 0xC66,
  0xCE6, 0xD66, 0xDE6, 0xE50, 0xED0, 0xF20, 0x1040, 0x1090, 0x17E0, 0x1810,
  0x1946, 0x19D0, 0x1A80, 0x1A90, 0x1B50, 0x1BB0, 0x1C40, 0x1C50, 0xA620, 0xA8D0,
  0xA900, 0xA9D0, 0xA9F0, 0xAA50, 0xABF0, 0xFF10, 0x104A0, 0x10D30, 0x11066, 0x110F0,
  0x11136, 0x111D0, 0x112F0, 0x11450, 0x114D0, 0x11650, 0x116C0, 0x11730, 0x118E0, 0x11950,
  0x11C50, 0x11D50, 0x11DA0, 0x16A60, 0x16AC0, 0x16B50, 0x1D7CE, 0x1D7D8, 0x1D7E2, 0x1D7EC,
  0x1D7F6, 0x1E140, 0x1E2F0, 0x1E950, 0x1FBF0]

def asciiDigit? (c : Char) : Option Nat :=
  if c.isDigit then some (c.toNat - '0'.toNat) else none

def wideDigit? (c : Char) : Option Nat :=
  (zeros.find? fun z => z ≤ c.toNat && c.toNat < z + 10).map (c.toNat - ·)

def digit? (c : Char) : Option Nat :=
  if c.toNat < 128 then asciiDigit? c else wideDigit? c

def digitChar (n : Nat) : Char := Nat.digitChar n

/-- The decimal digits of a number, without leading zeros; `0` for zero. -/
def ofNat (n : Nat) : Text := Nat.toDigits 10 n

def toNat (digits : Text) : Nat := Nat.ofDigitChars 10 digits 0

def ofInt : Int → Text
  | .ofNat n => ofNat n
  | .negSucc n => '-' :: ofNat (n + 1)

/-- Writes a comma before every third digit from the right, none at the front. -/
def group (digits : Text) : Text :=
  (go digits.reverse).reverse
where
  /-- Groups digits given from the last to the first. -/
  go : Text → Text
    | a :: b :: c :: d :: rest => a :: b :: c :: ',' :: go (d :: rest)
    | short => short

end DeskCalculator.Text

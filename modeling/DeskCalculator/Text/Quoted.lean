import DeskCalculator.Text.Printable
import DeskCalculator.Text.Digit

/-!
# Quoted text

How a text is shown inside a message: between single quotes, or between double quotes if it holds a
single quote and no double one. The quote in use and the backslash are escaped, line feed, return
and tab have short escapes, and every other character that is not printable is written by its code
in two, four or eight hexadecimal digits.
-/

namespace DeskCalculator.Text

/-- The last `width` hexadecimal digits of a number. -/
def hex (width n : Nat) : Text :=
  let digits := Nat.toDigits 16 n
  List.replicate (width - digits.length) '0' ++ digits

def escape (quote c : Char) : Text :=
  if c = quote ∨ c = '\\' then ['\\', c]
  else if c = '\n' then ['\\', 'n']
  else if c = '\r' then ['\\', 'r']
  else if c = '\t' then ['\\', 't']
  else if isPrintable c then [c]
  else if c.toNat < 0x100 then '\\' :: 'x' :: hex 2 c.toNat
  else if c.toNat < 0x10000 then '\\' :: 'u' :: hex 4 c.toNat
  else '\\' :: 'U' :: hex 8 c.toNat

def quoteFor (t : Text) : Char :=
  if t.contains '\'' && !t.contains '"' then '"' else '\''

/-- A text between quotes, escaped. -/
def quoted (t : Text) : Text :=
  let quote := quoteFor t
  quote :: t.flatMap (escape quote) ++ [quote]

end DeskCalculator.Text

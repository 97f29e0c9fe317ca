import DeskCalculator.Text.Basic

/-!
# Blanks

Two classes of blank characters. `isBlank` is the class that is taken off the ends of a typed line:
the Unicode white space together with the four ASCII separators U+001C to U+001F. `isAsciiBlank` is
the class that may stand between the lexemes of an expression.
-/

namespace DeskCalculator.Text

/-- Space, tab, line feed, vertical tab, form feed and carriage return. -/
def isAsciiBlank (c : Char) : Bool :=
  c.toNat == 0x20 || (0x09 ≤ c.toNat && c.toNat ≤ 0x0D)

def isWideBlank (c : Char) : Bool :=
  let n := c.toNat
  n == 0x85 || n == 0xA0 || n == 0x1680 || (0x2000 ≤ n && n ≤ 0x200A) || n == 0x2028 ||
    n == 0x2029 || n == 0x202F || n == 0x205F || n == 0x3000

/-- White space of any kind, the information separators included. -/
def isBlank (c : Char) : Bool :=
  isAsciiBlank c || (0x1C ≤ c.toNat && c.toNat ≤ 0x1F) || isWideBlank c

/-- The text without the characters of a class at its two ends. -/
def trimBy (blank : Char → Bool) (t : Text) : Text :=
  ((t.dropWhile blank).reverse.dropWhile blank).reverse

def trim (t : Text) : Text := trimBy isBlank t

def isAllBlank (t : Text) : Bool := t.all isBlank

end DeskCalculator.Text

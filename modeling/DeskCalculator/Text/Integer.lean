import DeskCalculator.Text.Blank
import DeskCalculator.Text.Digit
import DeskCalculator.Numeral.Length

/-!
# Integers as text

`Integer.read?` reads an integer that was typed or stored: blanks around it, one sign, digits of any
script, and single underscores between digits. Reading and writing are limited to `maxDigits`
digits.
-/

namespace DeskCalculator.Text.Integer

/-- The most digits an integer may have in text, in either direction. -/
def maxDigits : Nat := 4300

def isTooLong (n : Int) : Bool := maxDigits < Numeral.digitCount n.natAbs

def write? (n : Int) : Option Text := if isTooLong n then none else some (ofInt n)

/-- The values of digits with single underscores between them. `afterDigit` tells whether a digit
stands just before. -/
def digits? (afterDigit : Bool) : Text → Option (List Nat)
  | [] => if afterDigit then some [] else none
  | '_' :: rest => if afterDigit then digits? false rest else none
  | c :: rest => do
    let d ← digit? c
    let ds ← digits? true rest
    return d :: ds

def ofDigits (ds : List Nat) : Nat := ds.foldl (fun n d => 10 * n + d) 0

def readDigits? (t : Text) : Option Nat := do
  let ds ← digits? false t
  if ds.length ≤ maxDigits then some (ofDigits ds) else none

/-- Reads an integer; `none` if the text is none, or too long a one. -/
def read? (t : Text) : Option Int :=
  match trimBy (fun c => isAsciiBlank c || isWideBlank c) t with
  | '-' :: rest => (readDigits? rest).map fun n => -(n : Int)
  | '+' :: rest => (readDigits? rest).map Int.ofNat
  | rest => (readDigits? rest).map Int.ofNat

end DeskCalculator.Text.Integer

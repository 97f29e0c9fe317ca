/-!
# Text

Text is a list of characters, so that a position is a count of characters and a rest of a text is
a tail. `Text.toString` packs it for output.
-/

namespace DeskCalculator

abbrev Text := List Char

namespace Text

def ofString (s : String) : Text := s.toList

def toString (t : Text) : String := String.ofList t

/-- The code of an ASCII capital becomes that of its small letter; every other character stays. -/
def lower (t : Text) : Text :=
  t.map fun c => if 'A' ≤ c ∧ c ≤ 'Z' then Char.ofNat (c.toNat + 32) else c

def startsWith (p t : Text) : Bool := p.isPrefixOf t

/-- The part before the first `c`, and the part after it; the second is empty if `c` is absent. -/
def cut (c : Char) : Text → Text × Text
  | [] => ([], [])
  | d :: rest => if d = c then ([], rest) else
      let (before, after) := cut c rest
      (d :: before, after)

/-- The lines of a text, each with its line feed; a last line may lack one. -/
def lines : Text → List Text
  | [] => []
  | '\n' :: rest => ['\n'] :: lines rest
  | c :: rest => match lines rest, rest with
    | line :: more, _ :: _ => (c :: line) :: more
    | _, _ => [[c]]

def join (separator : Text) (pieces : List Text) : Text :=
  separator.intercalate pieces

end Text

end DeskCalculator

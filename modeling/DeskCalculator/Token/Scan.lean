import DeskCalculator.Problem
import DeskCalculator.Text.Blank
import DeskCalculator.Token.Basic

/-!
# From text to tokens

At each place the longest lexeme is taken: a run of digits and points, a name, or a single symbol.
Runs of ASCII blanks separate lexemes and are dropped. A run with no digit or with two points or
more is a malformed number, and a character that starts no lexeme is an unknown token. The
typographic signs for times, division and minus count as the plain ones. A minus negates when
nothing that it could subtract from comes before it.
-/

namespace DeskCalculator.Token

/-- The plain sign for a typographic one. -/
def plainSign (c : Char) : Char :=
  if c = '×' then '*' else if c = '÷' then '/' else if c = '−' then '-' else c

def isNumberPart (c : Char) : Bool := c.isDigit || c == '.'

def isNameStart (c : Char) : Bool := c.isAlpha

def isNamePart (c : Char) : Bool := c.isAlphanum || c == '_'

def constantNames : List Text := [['p', 'i'], ['e'], ['a', 'n', 's']]

/-- The lexeme of a name, whatever the case of its letters. -/
def ofName (name : Text) : Lexeme :=
  let name := Text.lower name
  if name ∈ constantNames then .constant name else .function name

def isNumber (run : Text) : Bool := run.count '.' ≤ 1 && run != ['.']

def ofSign? : Char → Option Lexeme
  | '+' => some (.operator .plus)
  | '-' => some (.operator .minus)
  | '*' => some (.operator .times)
  | '/' => some (.operator .divide)
  | '^' => some (.operator .power)
  | '(' => some .opening
  | ')' => some .closing
  | ',' => some .comma
  | '!' => some (.postfixed .factorial)
  | '%' => some (.postfixed .percent)
  | _ => none

/-- The lexeme at the start of the text `c :: rest`, if it is not blank there, and the number of
characters that belong to it after `c`. -/
def first (position : Nat) (c : Char) (rest : Text) : Except Problem (Option Lexeme × Nat) :=
  if isNumberPart c then
    let run := c :: rest.takeWhile isNumberPart
    if isNumber run then .ok (some (.number run), run.length - 1)
    else .error (.malformedNumber run position)
  else if isNameStart c then
    let name := c :: rest.takeWhile isNamePart
    .ok (some (ofName name), name.length - 1)
  else if Text.isAsciiBlank c then .ok (none, 0)
  else match ofSign? c with
    | some lexeme => .ok (some lexeme, 0)
    | none => .error (.unknownToken c position)

/-- A minus that stands where an operand starts negates. -/
def inPlace (previous : Option Lexeme) (lexeme : Lexeme) : Lexeme :=
  if lexeme = .operator .minus ∧ (previous.all Lexeme.beforeOperand) then .operator .negate
  else lexeme

/-- The tokens of a text that starts at a position, after the token `previous`. The first `skip`
characters belong to that token still. -/
def scanFrom (position : Nat) (previous : Option Lexeme) :
    (skip : Nat) → Text → Except Problem (List Token)
  | _, [] => .ok []
  | skip + 1, _ :: rest => scanFrom (position + 1) previous skip rest
  | 0, c :: rest =>
    match first position c rest with
    | .error p => .error p
    | .ok (none, more) => scanFrom (position + 1) previous more rest
    | .ok (some lexeme, more) =>
      let lexeme := inPlace previous lexeme
      match scanFrom (position + 1) (some lexeme) more rest with
      | .error p => .error p
      | .ok tokens => .ok (⟨lexeme, position⟩ :: tokens)

def scan (t : Text) : Except Problem (List Token) := scanFrom 0 none 0 (t.map plainSign)

end DeskCalculator.Token

import DeskCalculator.Json.Basic
import DeskCalculator.Double.Shortest
import DeskCalculator.Text.Quoted

/-!
# Writing JSON

Everything beyond printable ASCII is escaped, above the basic plane as a pair of surrogates. A value
is written either on one line or indented, one place for each level and one line for each item or
member. `Json.shown` is how a value is shown in a message.
-/

namespace DeskCalculator.Json

def escapeUnit (n : Nat) : Text := '\\' :: 'u' :: Text.hex 4 n

def escapeChar (c : Char) : Text :=
  if c = '"' then ['\\', '"']
  else if c = '\\' then ['\\', '\\']
  else if c = '\n' then ['\\', 'n']
  else if c = '\r' then ['\\', 'r']
  else if c = '\t' then ['\\', 't']
  else if c = '\x0c' then ['\\', 'f']
  else if c = '\x08' then ['\\', 'b']
  else if 0x20 ≤ c.toNat ∧ c.toNat < 0x7F then [c]
  else if c.toNat < 0x10000 then escapeUnit c.toNat
  else
    let n := c.toNat - 0x10000
    escapeUnit (0xD800 + n / 0x400) ++ escapeUnit (0xDC00 + n % 0x400)

def writeString (t : Text) : Text := '"' :: t.flatMap escapeChar ++ ['"']

def writeDouble : Double → Text
  | .nan => Text.ofString "NaN"
  | .infinite s => Text.ofString (if s then "-Infinity" else "Infinity")
  | x => x.text

/-- The space before an item: nothing on one line, else a new line and one place for each level. -/
def indent (indented : Bool) (level : Nat) : Text :=
  if indented then '\n' :: List.replicate level ' ' else []

/-- The pieces between brackets, each on a line of its own if `indented`, with commas between them.
Without pieces nothing stands between the brackets. -/
def bracketed (indented : Bool) (level : Nat) (left right : Char) (pieces : List Text) : Text :=
  if pieces.isEmpty then [left, right]
  else
    left :: Text.join [','] (pieces.map (indent indented (level + 1) ++ ·)) ++
      indent indented level ++ [right]

mutual

def writeAt (indented : Bool) (level : Nat) : Json → Text
  | null => Text.ofString "null"
  | bool b => Text.ofString (if b then "true" else "false")
  | integer n => Text.ofInt n
  | number x => writeDouble x
  | string t => writeString t
  | array items => bracketed indented level '[' ']' (writeItems indented (level + 1) items)
  | object members =>
    bracketed indented level '{' '}' (writeMembers indented (level + 1) members)

def writeItems (indented : Bool) (level : Nat) : List Json → List Text
  | [] => []
  | item :: rest => writeAt indented level item :: writeItems indented level rest

def writeMembers (indented : Bool) (level : Nat) : List (Text × Json) → List Text
  | [] => []
  | (key, value) :: rest =>
    (writeString key ++ ':' :: ' ' :: writeAt indented level value) ::
      writeMembers indented level rest

end

/-- The indented text of a value. -/
def write (value : Json) : Text := writeAt true 0 value

/-- The text of a value on one line. -/
def writeLine (value : Json) : Text := writeAt false 0 value

mutual

/-- How a value is shown in a message. -/
def shown : Json → Text
  | null => Text.ofString "None"
  | bool b => Text.ofString (if b then "True" else "False")
  | integer n => Text.ofInt n
  | number x => x.text
  | string t => Text.quoted t
  | array items => '[' :: Text.join [',', ' '] (shownItems items) ++ [']']
  | object members => '{' :: Text.join [',', ' '] (shownMembers members) ++ ['}']

def shownItems : List Json → List Text
  | [] => []
  | item :: rest => shown item :: shownItems rest

def shownMembers : List (Text × Json) → List Text
  | [] => []
  | (key, value) :: rest => (Text.quoted key ++ ':' :: ' ' :: shown value) :: shownMembers rest

end

/-- How a value is printed: a string as it is, everything else as it is shown. -/
def printed : Json → Text
  | string t => t
  | value => shown value

end DeskCalculator.Json

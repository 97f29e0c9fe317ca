import DeskCalculator.Json.Basic
import DeskCalculator.Text.Digit
import DeskCalculator.Text.Integer

/-!
# Reading JSON

`Json.read?` reads a whole text as one JSON value. Beyond the standard it accepts `NaN`, `Infinity`
and `-Infinity`, and it rounds any other number with a fraction or an exponent to a double. It
refuses a byte order mark, control characters inside strings, integers too long for `Text.Integer`,
and anything after the value but blanks. An escaped surrogate without its partner reads as U+FFFD.

The readers of parts take the text that is left and give back the rest. `fuel` bounds the nesting
and the number of parts; the length of the text is enough, since every part takes a character.
-/

namespace DeskCalculator.Json

def skipBlanks (t : Text) : Text :=
  t.dropWhile fun c => c == ' ' || c == '\t' || c == '\n' || c == '\r'

/-- The text after a fixed beginning. -/
def after? (word : String) (t : Text) : Option Text :=
  if word.toList.isPrefixOf t then some (t.drop word.length) else none

/-! ## Numbers -/

/-- An exponent, if a complete one follows; with the rest. -/
def readExponent (t : Text) : Option (Int × Text) :=
  match t with
  | c :: rest =>
    if c = 'e' ∨ c = 'E' then
      let (negative, rest) := match rest with
        | '-' :: rest => (true, rest)
        | '+' :: rest => (false, rest)
        | rest => (false, rest)
      match rest.span Char.isDigit with
      | ([], _) => none
      | (digits, rest) =>
        let n : Int := Text.toNat digits
        some (if negative then -n else n, rest)
    else none
  | [] => none

/-- The digits of a fraction, if one follows; with the rest. -/
def readFraction (t : Text) : Option (Text × Text) :=
  match t with
  | '.' :: rest => match rest.span Char.isDigit with
    | ([], _) => none
    | parts => some parts
  | _ => none

/-- The digits before the point: a single zero, or digits that do not start with one. -/
def readWhole (t : Text) : Option (Text × Text) :=
  match t with
  | '0' :: rest => some (['0'], rest)
  | c :: _ => if c.isDigit then some (t.span Char.isDigit) else none
  | [] => none

/-- An unsigned number with the rest; the sign is given. -/
def readNumber (negative : Bool) (t : Text) : Option (Json × Text) := do
  let (whole, rest) ← readWhole t
  let (fraction?, rest) := match readFraction rest with
    | some (digits, rest) => (some digits, rest)
    | none => (none, rest)
  let (exponent?, rest) := match readExponent rest with
    | some (e, rest) => (some e, rest)
    | none => (none, rest)
  match fraction?, exponent? with
  | none, none =>
    if whole.length ≤ Text.Integer.maxDigits then
      let n : Int := Text.toNat whole
      return (integer (if negative then -n else n), rest)
    else none
  | _, _ =>
    let fraction := fraction?.getD []
    let e := exponent?.getD 0
    return (number (Double.ofScientific negative (Text.toNat (whole ++ fraction))
      (e - fraction.length)), rest)

/-! ## Strings -/

def hexDigit? (c : Char) : Option Nat :=
  if c.isDigit then some (c.toNat - '0'.toNat)
  else if 'a' ≤ c ∧ c ≤ 'f' then some (c.toNat - 'a'.toNat + 10)
  else if 'A' ≤ c ∧ c ≤ 'F' then some (c.toNat - 'A'.toNat + 10)
  else none

/-- Four hexadecimal digits with the rest. -/
def readUnit : Text → Option (Nat × Text)
  | a :: b :: c :: d :: rest => do
    let a ← hexDigit? a
    let b ← hexDigit? b
    let c ← hexDigit? c
    let d ← hexDigit? d
    return (((a * 16 + b) * 16 + c) * 16 + d, rest)
  | _ => none

/-- The character of a code, where surrogates stand for U+FFFD. -/
def charOfUnit (n : Nat) : Char :=
  if 0xD800 ≤ n ∧ n < 0xE000 then '\uFFFD' else Char.ofNat n

/-- What follows `\u`: one unit, or a pair of surrogates. -/
def readEscapedUnit (t : Text) : Option (Char × Text) := do
  let (high, rest) ← readUnit t
  if 0xD800 ≤ high ∧ high < 0xDC00 then
    match rest with
    | '\\' :: 'u' :: next =>
      let (low, next) ← readUnit next
      if 0xDC00 ≤ low ∧ low < 0xE000 then
        return (Char.ofNat (0x10000 + (high - 0xD800) * 0x400 + (low - 0xDC00)), next)
      else return (charOfUnit high, rest)
    | _ => return (charOfUnit high, rest)
  else return (charOfUnit high, rest)

/-- What follows a backslash. -/
def readEscape : Text → Option (Char × Text)
  | '"' :: rest => some ('"', rest)
  | '\\' :: rest => some ('\\', rest)
  | '/' :: rest => some ('/', rest)
  | 'b' :: rest => some ('\x08', rest)
  | 'f' :: rest => some ('\x0c', rest)
  | 'n' :: rest => some ('\n', rest)
  | 'r' :: rest => some ('\r', rest)
  | 't' :: rest => some ('\t', rest)
  | 'u' :: rest => readEscapedUnit rest
  | _ => none

/-- The characters up to the closing quote, with the rest. -/
def readString : (fuel : Nat) → Text → Option (Text × Text)
  | 0, _ => none
  | fuel + 1, t => match t with
    | [] => none
    | '"' :: rest => some ([], rest)
    | '\\' :: rest => do
      let (c, rest) ← readEscape rest
      let (cs, rest) ← readString fuel rest
      return (c :: cs, rest)
    | c :: rest =>
      if c.toNat < 0x20 then none
      else do
        let (cs, rest) ← readString fuel rest
        return (c :: cs, rest)

/-! ## Values -/

mutual

def readValue : (fuel : Nat) → Text → Option (Json × Text)
  | 0, _ => none
  | fuel + 1, t => match t with
    | '"' :: rest => (readString (rest.length + 1) rest).map fun (s, rest) => (string s, rest)
    | '[' :: rest => match skipBlanks rest with
      | ']' :: rest => some (array [], rest)
      | rest => (readItems fuel rest).map fun (items, rest) => (array items, rest)
    | '{' :: rest => match skipBlanks rest with
      | '}' :: rest => some (object [], rest)
      | rest => (readMembers fuel [] rest).map fun (members, rest) => (object members, rest)
    | 'n' :: rest => (after? "ull" rest).map (null, ·)
    | 't' :: rest => (after? "rue" rest).map (bool true, ·)
    | 'f' :: rest => (after? "alse" rest).map (bool false, ·)
    | 'N' :: rest => (after? "aN" rest).map (number .nan, ·)
    | 'I' :: rest => (after? "nfinity" rest).map (number (.infinite false), ·)
    | '-' :: 'I' :: rest => (after? "nfinity" rest).map (number (.infinite true), ·)
    | '-' :: rest => readNumber true rest
    | rest => readNumber false rest

/-- The items of an array from one of them on, up to its end. -/
def readItems : (fuel : Nat) → Text → Option (List Json × Text)
  | 0, _ => none
  | fuel + 1, t => do
    let (item, rest) ← readValue fuel t
    match skipBlanks rest with
    | ',' :: rest =>
      let (items, rest) ← readItems fuel (skipBlanks rest)
      return (item :: items, rest)
    | ']' :: rest => return ([item], rest)
    | _ => none

/-- The members of an object from one of them on, up to its end, added to those before. -/
def readMembers : (fuel : Nat) → List (Text × Json) → Text → Option (List (Text × Json) × Text)
  | 0, _, _ => none
  | fuel + 1, members, t => match t with
    | '"' :: rest => do
      let (key, rest) ← readString (rest.length + 1) rest
      match skipBlanks rest with
      | ':' :: rest =>
        let (value, rest) ← readValue fuel (skipBlanks rest)
        let members := setMember key value members
        match skipBlanks rest with
        | ',' :: rest => readMembers fuel members (skipBlanks rest)
        | '}' :: rest => return (members, rest)
        | _ => none
      | _ => none
    | _ => none

end

/-- Reads a whole text as one value. -/
def read? (t : Text) : Option Json :=
  match readValue (2 * t.length + 2) (skipBlanks t) with
  | some (value, rest) => if (skipBlanks rest).isEmpty then some value else none
  | none => none

end DeskCalculator.Json

import DeskCalculator.Json.Reader
import DeskCalculator.StateFile.Notice
import DeskCalculator.StateFile.Writer

/-!
# Reading the state file

A file that is absent gives a new desk and an empty history. So does one that cannot be read as
JSON, and one that can but does not hold a usable state; each of these two is told by a notice. Of a
usable state, members that are missing take their usual values. A member of the wrong form makes the
whole state malformed. An infinite number where an integer is wanted, and an integer too large for a
machine word where the parts of a decimal are wanted, are faults that are let through.
-/

namespace DeskCalculator.StateFile

/-- What stands where the state file is looked for. -/
inductive Source where
  | absent
  /-- Something that is there and cannot be read, such as a directory. -/
  | unreadable
  | contents (t : Text)
  deriving Repr

/-- What a file with these bytes is: its text, or unreadable if they are not UTF-8. -/
def Source.ofBytes (bytes : ByteArray) : Source :=
  match String.fromUTF8? bytes with
  | some s => .contents s.toList
  | none => .unreadable

/-- The desk and the history of a state file, and what is told about it. -/
structure Loaded where
  desk : Desk := {}
  history : List Entry := []
  notice : Option Notice := none
  deriving Repr

/-- Why a member is not used: it is malformed, or it is a fault. -/
inductive Refusal where
  | malformed
  | fault (f : Fault)
  deriving DecidableEq, Repr

def orMalformed {α : Type} : Option α → Except Refusal α
  | some a => .ok a
  | none => .error .malformed

/-! ## Values -/

/-- An exact integer from the text or the number that stands for it. -/
def readExact : Json → Except Refusal Int
  | .string t => orMalformed (Text.Integer.read? t)
  | .integer n => .ok n
  | .bool b => .ok (if b then 1 else 0)
  | .number (.infinite _) => .error (.fault .infiniteInteger)
  | .number .nan => .error .malformed
  | .number x => .ok x.truncate
  | _ => .error .malformed

/-- An integer that must fit a machine word. A truth value counts as one or zero. -/
def readWord : Json → Except Refusal Int
  | .integer n =>
    if -Nat.pow 2 63 ≤ n ∧ n < Nat.pow 2 63 then .ok n else .error (.fault .wordTooLarge)
  | .bool b => .ok (if b then 1 else 0)
  | _ => .error .malformed

def readBelow (bound : Nat) (v : Json) : Except Refusal Nat := do
  let n ← readWord v
  if 0 ≤ n ∧ n < bound then return n.toNat else .error .malformed

/-- The coefficient that is given digit by digit. -/
def readCoefficient : Json → Except Refusal Nat
  | .array digits => (digits.mapM (readBelow 10)).map Text.Integer.ofDigits
  | _ => .error .malformed

/-- A decimal from its sign, digits and exponent, where a letter for the exponent makes it infinite
or a NaN. -/
def readParts (sign digits exponent : Json) : Except Refusal Decimal := do
  let s := (← readBelow 2 sign) = 1
  match exponent with
  | .string ['F'] =>
    let _ ← readCoefficient digits
    return .infinite s
  | .string ['n'] => return .nan s false (← readCoefficient digits)
  | .string ['N'] => return .nan s true (← readCoefficient digits)
  | _ =>
    let e ← readWord exponent
    let c ← readCoefficient digits
    if Decimal.isStorable c e then return .finite s c e else .error .malformed

/-- A decimal from the text, the number or the parts that stand for it. A number gives its exact
value. -/
def readDecimal : Json → Except Refusal Decimal
  | .string t => orMalformed (Decimal.read? t)
  | .integer n => .ok (Decimal.ofInt n)
  | .bool b => .ok (Decimal.ofInt (if b then 1 else 0))
  | .number x => .ok (Decimal.ofDoubleExactly x)
  | .array [sign, digits, exponent] => readParts sign digits exponent
  | _ => .error .malformed

/-- A value from the object that tells its kind. -/
def readValue : Json → Except Refusal Value
  | .object members =>
    match Json.member? "exact" members, Json.member? "decimal" members with
    | some v, _ => (readExact v).map .exact
    | none, some v => (readDecimal v).map .decimal
    | none, none => .error .malformed
  | _ => .error .malformed

/-! ## The history -/

/-- The values that something counts as a list of: the items of an array, the keys of an object, the
characters of a string. -/
def elements : Json → Option (List Json)
  | .array items => some items
  | .object members => some (members.map fun m => .string m.1)
  | .string t => some (t.map fun c => .string [c])
  | _ => none

/-- An entry from anything that counts as a list of two. -/
def readEntry (v : Json) : Option Entry :=
  match elements v with
  | some [expression, result] => some ⟨expression, result⟩
  | _ => none

def readHistory (v : Json) : Except Refusal (List Entry) :=
  orMalformed (elements v >>= fun items => items.mapM readEntry)

/-! ## The state -/

/-- The refusal of a setting: an infinite number is a fault, all else is malformed. -/
def ofFault : Fault → Refusal
  | .infiniteInteger => .fault .infiniteInteger
  | _ => .malformed

/-- A result, with its faults as refusals. -/
def refusing {α : Type} (r : Except Fault α) : Except Refusal α := r.mapError ofFault

/-- The value of a member, or the usual one where there is none. -/
def register (members : List (Text × Json)) (key : String) (usual : Value) :
    Except Refusal Value :=
  match Json.member? key members with
  | some v => readValue v
  | none => .ok usual

def readState (members : List (Text × Json)) : Except Refusal (Desk × List Entry) := do
  let usual : Desk := {}
  let angle ← refusing (AngleUnit.ofSetting
    ((Json.member? "angle" members).getD (.string usual.angle.name)))
  let exact := ((Json.member? "exact" members).getD (.bool false)).isTrue
  let answer ← register members "ans" usual.answer
  let memory ← register members "memory" usual.memory
  let precision ← refusing (Precision.ofSetting
    ((Json.member? "precision" members).getD .null))
  let history ← readHistory ((Json.member? "history" members).getD (.array []))
  return ({ precision, angle, exact := .truth exact, answer, memory }, history)

/-- The desk and the history that a state file gives. -/
def read : Source → Except Fault Loaded
  | .absent => .ok {}
  | .unreadable => .ok { notice := some .unreadable }
  | .contents t =>
    match Json.read? t with
    | none => .ok { notice := some .unreadable }
    | some (.object members) =>
      match readState members with
      | .ok (desk, history) => .ok { desk, history }
      | .error .malformed => .ok { notice := some .malformed }
      | .error (.fault f) => .error f
    | some _ => .ok { notice := some .malformed }

end DeskCalculator.StateFile

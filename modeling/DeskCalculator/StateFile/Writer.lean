import DeskCalculator.Desk

/-!
# Writing the state file

The settings, the registers and the history of a calculator as an indented JSON object. A value is
an object with one member that tells its kind and holds its text, so that a decimal keeps its
exponent and its trailing zeros. An integer too long to be written makes the whole writing a fault.
-/

namespace DeskCalculator.StateFile

/-- An expression and its result, as the history keeps them. -/
structure Entry where
  expression : Json
  result : Json
  deriving Repr

def Entry.ofTexts (expression result : Text) : Entry := ⟨.string expression, .string result⟩

def Entry.toJson (entry : Entry) : Json := .array [entry.expression, entry.result]

def valueKey : Value → Text
  | .exact _ => Text.ofString "exact"
  | .decimal _ => Text.ofString "decimal"

/-- A value as an object that tells its kind. -/
def ofValue (v : Value) : Except Fault Json :=
  v.text.map fun t => .object [(valueKey v, .string t)]

/-- The contents of the state file as a JSON value. -/
def toJson (desk : Desk) (history : List Entry) : Except Fault Json := do
  let answer ← ofValue desk.answer
  let memory ← ofValue desk.memory
  return .object [
    ("precision".toList, .integer desk.precision.digits),
    ("angle".toList, .string desk.angle.name),
    ("exact".toList, desk.exact.toJson),
    ("ans".toList, answer),
    ("memory".toList, memory),
    ("history".toList, .array (history.map Entry.toJson))]

def write (desk : Desk) (history : List Entry) : Except Fault Text :=
  (toJson desk history).map Json.write

end DeskCalculator.StateFile

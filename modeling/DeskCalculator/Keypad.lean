import DeskCalculator.Evaluation
import DeskCalculator.StateFile.Writer
import DeskCalculator.Value.Display

/-!
# The keypad

How single keys build up, evaluate and chain expressions. After an evaluation the buffer holds the
result, and the next key decides what becomes of it: a digit starts over, an operator carries on
from it, a postfix sign or a function of one argument is applied to it at once, and a function of
two arguments takes it as the first one. `strike` gives the keypad after a key; where a fault
escapes, it gives the keypad as the fault left it.
-/

namespace DeskCalculator

/-- What the buffer holds: an expression in the making, or a result. -/
inductive Mode where
  | editing
  | evaluated
  deriving DecidableEq, Repr

namespace Mode

def name : Mode → String
  | editing => "editing"
  | evaluated => "evaluated"

end Mode

/-- What has been written to the state file: how many times, and the text of the last time. -/
structure Archive where
  saves : Nat := 0
  last : Option Text := none
  deriving DecidableEq, Repr

/-- A desk with what is typed and shown on it. -/
structure Keypad where
  desk : Desk := {}
  /-- The evaluations so far, the latest first. -/
  history : List StateFile.Entry := []
  /-- The state file, if one is kept. -/
  archive : Option Archive := none
  buffer : Text := []
  mode : Mode := .editing
  display : Text := []
  /-- The line above the display: the expression of the result. -/
  subdisplay : Text := []
  /-- The problem that is shown. -/
  problem : Option Problem := none
  deriving Repr

inductive Key where
  /-- Literal text: digits, operators, parentheses, names. -/
  | text (t : Text)
  /-- A function by its name. -/
  | function (name : Text)
  /-- A sign behind its operand. -/
  | postfixed (symbol : Text)
  | evaluate
  | clear
  | backspace
  | answer
  | memoryRecall
  | memoryAdd
  | memorySubtract
  | memoryClear
  | clearHistory
  deriving DecidableEq, Repr

/-- What a key tells: nothing, or a value or a problem. -/
abbrev Reply := Option (Except Problem Value)

/-- A keypad after a key, with its reply or the fault that escaped. -/
structure Struck where
  keypad : Keypad
  reply : Except Fault Reply

namespace Keypad

def historySize : Nat := 300

/-- The last entries of a list that fit into the history. -/
def lastEntries (entries : List StateFile.Entry) : List StateFile.Entry :=
  entries.drop (entries.length - historySize)

def new (desk : Desk) (history : List StateFile.Entry) (keepsFile : Bool) : Keypad where
  desk := desk
  history := lastEntries history
  archive := if keepsFile then some {} else none

/-! ## Editing -/

/-- Puts an expression in the making into the buffer and onto the display. -/
def edit (k : Keypad) (buffer : Text) : Keypad :=
  { k with buffer, mode := .editing, display := buffer, problem := none }

def clear (k : Keypad) : Keypad := { k.edit [] with subdisplay := [] }

/-- Whether a text starts with a digit or a point. -/
def startsNumber : Text → Bool
  | c :: _ => c.isDigit || c == '.'
  | [] => false

/-- Types a text. What starts with a digit or a point replaces a result. -/
def type (k : Keypad) (t : Text) : Keypad :=
  if k.mode = .evaluated ∧ startsNumber t then k.edit t else k.edit (k.buffer ++ t)

/-- Takes off the last character, or the whole of a result. -/
def backspace (k : Keypad) : Keypad :=
  match k.mode with
  | .evaluated => k.clear
  | .editing => k.edit k.buffer.dropLast

/-- Opens a call of a function. A result becomes the first of two arguments; before a function that
does not exist it is dropped. -/
def openCall (k : Keypad) (name : Text) : Keypad :=
  match k.mode with
  | .editing => k.edit (k.buffer ++ name ++ ['('])
  | .evaluated =>
    if (Function.ofName? (Text.lower name)).isSome then k.edit (name ++ '(' :: k.buffer ++ [','])
    else k.edit (name ++ ['('])

/-! ## The state file -/

/-- Writes the state file, if one is kept. -/
def save (k : Keypad) : Except Fault Keypad :=
  match k.archive with
  | none => .ok k
  | some archive => (StateFile.write k.desk k.history).map fun t =>
    { k with archive := some { saves := archive.saves + 1, last := some t } }

def saving (k : Keypad) (reply : Reply) : Struck :=
  match k.save with
  | .ok k => ⟨k, .ok reply⟩
  | .error f => ⟨k, .error f⟩

/-! ## Evaluating -/

/-- Shows a problem in place of the expression. -/
def fail (k : Keypad) (p : Problem) : Struck :=
  ⟨{ k with buffer := [], mode := .editing, display := p.display, subdisplay := [],
            problem := some p }, .ok (some (.error p))⟩

/-- Enters an evaluation into the history. -/
def record (k : Keypad) (expression result : Text) : Keypad :=
  { k with history := (.ofTexts expression result :: k.history).take historySize }

/-- Puts the value of an expression into the buffer, the displays, the history and the state file,
one after the other. -/
def showResult (k : Keypad) (expression : Text) (v : Value) : Struck :=
  match v.plain with
  | .error f => ⟨k, .error f⟩
  | .ok result =>
    let k := { k with buffer := result, mode := .evaluated }
    match v.display with
    | .error f => ⟨k, .error f⟩
    | .ok shown =>
      let k := { k with display := shown, subdisplay := expression ++ [' ', '='], problem := none }
      (k.record expression result).saving (some (.ok v))

def evaluate (k : Keypad) (expression : Text) : Struck :=
  let k := { k with buffer := expression }
  match k.desk.evaluate expression with
  | .error f => ⟨k, .error f⟩
  | .ok (_, .error p) => k.fail p
  | .ok (desk, .ok v) => { k with desk }.showResult expression v

def isPostfixSign (t : Text) : Bool := t = ['!'] || t = ['%']

def takesOne (name : Text) : Bool :=
  match Function.ofName? (Text.lower name) with
  | some f => f.arity = 1
  | none => false

/-- The expression that a key has evaluated, if it has one evaluated: what is not blank in the
buffer, or a result with a sign behind it or as the argument of a function. -/
def expression? (k : Keypad) : Key → Option Text
  | .evaluate => if Text.isAllBlank k.buffer then none else some k.buffer
  | .postfixed symbol =>
    if k.mode = .evaluated ∧ isPostfixSign symbol then some (k.buffer ++ symbol) else none
  | .function name =>
    if k.mode = .evaluated ∧ takesOne name then some (name ++ '(' :: k.buffer ++ [')']) else none
  | _ => none

/-! ## The memory -/

/-- The number that is shown: a result, or what the buffer holds, where commas do not count. -/
def shownNumber (k : Keypad) : Except Problem Value :=
  match k.mode with
  | .evaluated => .ok k.desk.answer
  | .editing =>
    match Decimal.read? (Text.trim (k.buffer.filter (· ≠ ','))) with
    | some d => if d.isFinite then .ok (.decimal d) else .error (.noValue k.buffer)
    | none => .error (.noValue k.buffer)

/-- Changes the memory by the number that is shown. -/
def memorize (k : Keypad) (update : Desk → Value → Desk) : Struck :=
  match k.shownNumber with
  | .error p => k.fail p
  | .ok v => { k with desk := update k.desk v }.saving (some (.ok v))

/-! ## Keys -/

/-- A keypad that only changed what is typed. -/
def silent (k : Keypad) : Struck := ⟨k, .ok none⟩

/-- A key that does not evaluate. -/
def act (k : Keypad) : Key → Struck
  | .text t => (k.type t).silent
  | .function name => (k.openCall name).silent
  | .postfixed symbol =>
    if isPostfixSign symbol then (k.edit (k.buffer ++ symbol)).silent
    else ⟨k, .error (.unknownPostfix symbol)⟩
  | .evaluate => k.silent
  | .clear => k.clear.silent
  | .backspace => k.backspace.silent
  | .answer => (k.edit (k.buffer ++ ['a', 'n', 's'])).silent
  | .memoryRecall =>
    match k.desk.memory.plain with
    | .ok t => (k.edit (k.buffer ++ t)).silent
    | .error f => ⟨k, .error f⟩
  | .memoryAdd => k.memorize Desk.memoryAdd
  | .memorySubtract => k.memorize Desk.memorySubtract
  | .memoryClear => { k with desk := k.desk.memoryClear }.saving none
  | .clearHistory => { k with history := [] }.saving none

def strike (k : Keypad) (key : Key) : Struck :=
  match k.expression? key with
  | some expression => k.evaluate expression
  | none => k.act key

end Keypad

end DeskCalculator

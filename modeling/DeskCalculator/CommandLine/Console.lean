import DeskCalculator.CommandLine.Command
import DeskCalculator.CommandLine.Print
import DeskCalculator.Json.Writer

/-!
# Working through lines

Every line is typed into a keypad and evaluated. An expression that starts with an operator carries
on from the result before it; any other one starts over, unless a call still waits for its second
argument. `Turn.ofLine` works through one line and `turns` through many, up to a fault.
-/

namespace DeskCalculator.CommandLine

/-- The keypad after a line, what was printed for it, and the fault that escaped. -/
structure Turn where
  keypad : Keypad
  prints : List Print := []
  fault : Option Fault := none

namespace Turn

/-- Prints lines that a fault may keep from being printed. -/
def printing (k : Keypad) (notes : List Print) : Except Fault (List Print) → Turn
  | .ok prints => ⟨k, notes ++ prints, none⟩
  | .error f => ⟨k, notes, some f⟩

/-- What a verbose run notes about a key: how far an evaluation came, and a problem. -/
def notes (k : Keypad) (key : Key) (reply : Except Fault Reply) : List Print :=
  let expression := k.expression? key
  let reading := expression.elim [] Print.readingNotes
  match reply with
  | .ok (some (.error p)) =>
    reading ++ (expression.map (Print.failureNote · p)).toList ++
      [Print.shownNote (expression.getD k.buffer) p]
  | _ => reading

/-- Strikes a key and prints what `shown` makes of it. A problem is reported instead. -/
def strike (verbose : Bool) (k : Keypad) (key : Key)
    (shown : Keypad → Option Value → Except Fault (List Print)) : Turn :=
  let struck := k.strike key
  let notes := if verbose then notes k key struck.reply else []
  match struck.reply with
  | .error f => ⟨struck.keypad, notes, some f⟩
  | .ok none => printing struck.keypad notes (shown struck.keypad none)
  | .ok (some (.ok v)) => printing struck.keypad notes (shown struck.keypad (some v))
  | .ok (some (.error p)) => ⟨struck.keypad, notes ++ Print.report verbose p, none⟩

/-! ## What is shown -/

/-- A result, or an expression that waits for more. -/
def showBuffer (k : Keypad) : Option Value → Except Fault (List Print)
  | some _ => .ok [.output k.display]
  | none => .ok (if k.mode = .editing ∧ k.buffer ≠ [] then [.output k.buffer] else [])

def showNothing (_ : Keypad) (_ : Option Value) : Except Fault (List Print) := .ok []

/-- What is left in the buffer. -/
def showRest (k : Keypad) (_ : Option Value) : Except Fault (List Print) := .ok [.output k.buffer]

def showMemory (k : Keypad) (_ : Option Value) : Except Fault (List Print) :=
  k.desk.memory.display.map fun t => [.output ('M' :: ' ' :: t)]

def showValue (k : Keypad) (v : Value) : Turn := printing k [] (v.display.map fun t => [.output t])

def entryLine (entry : StateFile.Entry) : Print :=
  .output (entry.expression.printed ++ ' ' :: '=' :: ' ' :: entry.result.printed)

/-! ## Lines -/

def ofCommand (verbose : Bool) (k : Keypad) : Command → Turn
  | .key key => strike verbose k key showBuffer
  | .backspace => strike verbose k .backspace showRest
  | .angle unit => ⟨{ k with desk := { k.desk with angle := unit } }, [], none⟩
  | .exact on => ⟨{ k with desk := k.desk.setExact on }, [], none⟩
  | .precision setting =>
    match k.desk.setPrecision (.string setting) with
    | .ok desk => ⟨{ k with desk }, [.output (Text.ofNat desk.precision.digits)], none⟩
    | .error f => ⟨k, [], some f⟩
  | .answer => showValue k k.desk.answer
  | .memory => showValue k k.desk.memory
  | .memoryAdd => strike verbose k .memoryAdd showMemory
  | .memorySubtract => strike verbose k .memorySubtract showMemory
  | .memoryClear => strike verbose k .memoryClear showNothing
  | .forget => strike verbose k .clearHistory showNothing
  | .history => ⟨k, k.history.reverse.map entryLine, none⟩
  | .unknown name => ⟨k, [.errors (Text.ofString "Unknown command :" ++ name)], none⟩

/-- Types an expression and evaluates it. A result that it does not carry on from is cleared. -/
def ofExpression (verbose : Bool) (k : Keypad) (t : Text) : Turn :=
  let k := if k.mode = .evaluated ∧ ¬ carriesOn t then k.clear else k
  strike verbose (k.type t) .evaluate showBuffer

def ofLine (verbose : Bool) (k : Keypad) : Line → Turn
  | .blank => ⟨k, [], none⟩
  | .command c => ofCommand verbose k c
  | .expression t => ofExpression verbose k t

end Turn

/-- Works through lines up to the first fault. -/
def turns (verbose : Bool) (k : Keypad) : List Text → Turn
  | [] => { keypad := k }
  | line :: rest =>
    let turn := Turn.ofLine verbose k (.ofText line)
    match turn.fault with
    | some _ => turn
    | none =>
      let later := turns verbose turn.keypad rest
      { later with prints := turn.prints ++ later.prints }

end DeskCalculator.CommandLine

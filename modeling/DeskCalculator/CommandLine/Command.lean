import DeskCalculator.Keypad
import DeskCalculator.Text.Blank

/-!
# Lines

A line of the input, without the blanks around it, is an expression, or a command if it starts with
a colon. A command is a name, which may be followed by a blank and an argument. Names that are no
commands are functions.
-/

namespace DeskCalculator.CommandLine

/-- What a line that starts with a colon asks for. -/
inductive Command where
  | key (k : Key)
  /-- Takes off the last character, and prints the rest. -/
  | backspace
  | angle (unit : AngleUnit)
  | exact (on : Bool)
  | precision (setting : Text)
  | answer
  | memoryClear
  | memory
  | memoryAdd
  | memorySubtract
  | history
  | forget
  | unknown (name : Text)
  deriving DecidableEq, Repr

def Command.ofName (name argument : Text) : Command :=
  match name.toString with
  | "clear" => key .clear
  | "del" => backspace
  | "deg" => angle .degrees
  | "rad" => angle .radians
  | "exact" => exact (Text.lower argument ≠ ['o', 'f', 'f'])
  | "prec" => precision argument
  | "ans" => answer
  | "mc" => memoryClear
  | "mr" => memory
  | "m+" => memoryAdd
  | "m-" => memorySubtract
  | "history" => history
  | "forget" => forget
  | "!" | "%" => key (.postfixed name)
  | _ =>
    if (Function.ofName? (Text.lower name)).isSome then key (.function name) else unknown name

def Command.ofText (t : Text) : Command :=
  let (name, argument) := Text.cut ' ' t
  ofName name (Text.trim argument)

/-- A line of the input. -/
inductive Line where
  | blank
  | command (c : Command)
  | expression (t : Text)
  deriving DecidableEq, Repr

def Line.ofText (t : Text) : Line :=
  match Text.trim t with
  | [] => blank
  | ':' :: rest => command (.ofText rest)
  | t => expression t

/-- Whether an expression carries on from the result before it: one that starts with an operator. -/
def carriesOn : Text → Bool
  | c :: _ => c ∈ ['+', '-', '*', '/', '^', '!', '%']
  | [] => false

end DeskCalculator.CommandLine

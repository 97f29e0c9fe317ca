import DeskCalculator.Postfix.Basic
import DeskCalculator.Problem

/-!
# From tokens to postfix order

Operators wait on a stack until one that binds less tightly follows. A function waits for its
argument list to close; if none follows it is applied to what comes next, before the next operator.
An open group counts its commas and notices whether anything else stands in it, which gives the
number of arguments of the call that it closes.
-/

namespace DeskCalculator.Postfix

/-- What waits on the stack. -/
inductive Frame where
  | operator (symbol : Symbol)
  | postfixed (symbol : Symbol)
  | function (name : Text)
  | group (commas : Nat) (hasContent : Bool)
  deriving DecidableEq, Repr

/-- The items so far, the last one first, and the frames that wait, the innermost first. -/
structure State where
  output : List Item := []
  stack : List Frame := []
  deriving DecidableEq, Repr

namespace Frame

/-- The item of a frame that is done. A function without parentheses takes one argument; a group has
no item of its own. -/
def item? : Frame → Option Item
  | operator s => some (.operator s)
  | postfixed s => some (.postfixed s)
  | function name => some (.call name (some 1))
  | group .. => none

def groupArity (commas : Nat) (hasContent : Bool) : Nat := if hasContent then commas + 1 else 0

end Frame

/-- Notes in the innermost group that something stands in it. -/
def markContent : List Frame → List Frame
  | [] => []
  | .group commas _ :: rest => .group commas true :: rest
  | frame :: rest => frame :: markContent rest

/-- Whether a frame goes out before an operator of a rank is stacked: a function does, and an
operator that binds more tightly, or as tightly if the new one associates to the left. -/
def goesBefore (rank : Nat) (rightAssociative : Bool) (frame : Frame) : Bool :=
  match frame with
  | .function _ => true
  | .group .. => false
  | .operator s | .postfixed s => match s.rank? with
    | some top => rank < top || (!rightAssociative && rank == top)
    | none => false

/-- Moves frames out as long as a test holds, at most down to the innermost group. -/
def moveOut (test : Frame → Bool) : List Item → List Frame → State
  | output, [] => ⟨output, []⟩
  | output, frame :: rest =>
    match frame.item? with
    | some item =>
      if test frame then moveOut test (item :: output) rest else ⟨output, frame :: rest⟩
    | none => ⟨output, frame :: rest⟩

/-- Stacks an operator after the frames that go before it. -/
def pushOperator (frame : Frame) (symbol : Symbol) (s : State) : Except Failure State :=
  match symbol.rank? with
  | none => .error (.fault (.unknownOperator symbol.text))
  | some rank =>
    let s := moveOut (goesBefore rank symbol.isRightAssociative) s.output s.stack
    .ok { s with stack := frame :: s.stack }

/-- Moves everything out down to the innermost group. -/
def unwind (s : State) : State := moveOut (fun _ => true) s.output s.stack

/-- Closes the innermost group, and the call that it belongs to. -/
def closeGroup (s : State) : Except Failure State :=
  let s := unwind s
  match s.stack with
  | .group commas hasContent :: .function name :: rest =>
    .ok ⟨.call name (some (Frame.groupArity commas hasContent)) :: s.output, rest⟩
  | .group .. :: rest => .ok { s with stack := rest }
  | _ => .error (.problem .unopenedParen)

/-- Counts a comma in the innermost group. -/
def separate (position : Nat) (s : State) : Except Failure State :=
  let s := unwind s
  match s.stack with
  | .group commas hasContent :: rest =>
    .ok { s with stack := .group (commas + 1) hasContent :: rest }
  | _ => .error (.problem (.misplacedComma position))

/-- Takes one token. Everything but a comma and a closing parenthesis counts as content. -/
def step (s : State) (token : Token) : Except Failure State :=
  let marked := { s with stack := markContent s.stack }
  match token.lexeme with
  | .number t => .ok { marked with output := .number t :: marked.output }
  | .constant name => .ok { marked with output := .constant name :: marked.output }
  | .function name => .ok { marked with stack := .function name :: marked.stack }
  | .operator symbol => pushOperator (.operator symbol) symbol marked
  | .postfixed symbol => pushOperator (.postfixed symbol) symbol marked
  | .opening => .ok { marked with stack := .group 0 false :: marked.stack }
  | .closing => closeGroup s
  | .comma => separate token.position s
  | .foreign => .ok marked

def steps (s : State) : List Token → Except Failure State
  | [] => .ok s
  | token :: rest => match step s token with
    | .ok s => steps s rest
    | .error e => .error e

/-- Moves out what still waits; an open group is a problem. -/
def finish (s : State) : Except Failure (List Item) :=
  let s := unwind s
  if s.stack.isEmpty then .ok s.output.reverse else .error (.problem .unclosedParen)

def ofTokens (tokens : List Token) : Except Failure (List Item) :=
  match steps {} tokens with
  | .ok s => finish s
  | .error e => .error e

end DeskCalculator.Postfix

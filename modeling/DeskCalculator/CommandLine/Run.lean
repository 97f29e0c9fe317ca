import DeskCalculator.CommandLine.Console
import DeskCalculator.CommandLine.Options
import DeskCalculator.StateFile.Reader

/-!
# A run of the program

A run starts from what stands in the state file, over which the settings of the command line go. It
works through lines, or lists what they are read as, or prints the grammar of the lexemes.
-/

namespace DeskCalculator.CommandLine

/-- What a run prints, the text that it leaves in the state file if it writes one, and the fault
that ended it. -/
structure Transcript where
  prints : List Print := []
  saved : Option Text := none
  fault : Option Fault := none

/-- The grammar of the lexemes, as a regular expression. -/
def grammar : Text := Text.ofString
  ("(?<number>[0-9.]+)|(?<name>[A-Za-z][A-Za-z0-9_]*)|(?<op>[-+*/^])|" ++
    "(?<paren>[()])|(?<comma>,)|(?<postfix>[!%])|(?<space>\\s+)")

/-! ## Listing -/

def listingHead : Print := .output (Text.ofString "[tokens]\t<rpn>")

/-- A line of a listing: the tokens, and the items in postfix order. -/
def listingLine (tokens : List Token) (items : List Item) : Print :=
  .output (Text.join [' '] (tokens.map (·.lexeme.text)) ++ '\t' ::
    Text.join [' '] (items.map Item.listed))

def list (verbose : Bool) (line : Text) : List Print :=
  let notes := if verbose then Print.readingNotes line else []
  match Token.scan line with
  | .error p => notes ++ Print.report verbose p
  | .ok tokens => match Postfix.ofTokens tokens with
    | .ok items => notes ++ [listingLine tokens items]
    | .error (.problem p) => notes ++ Print.report verbose p
    | .error (.fault _) => notes

/-! ## Start and run -/

namespace Options

/-- The path of the state file; an empty one is none. -/
def statePath? (o : Options) : Option Text := o.state.filter (· ≠ [])

def readsInput (o : Options) : Bool := o.action ≠ .rawGrammar && o.expressions.isNone

def lines (o : Options) (input : Text) : List Text := o.expressions.getD (Text.lines input)

/-- The settings of the command line on a desk. -/
def settle (o : Options) (desk : Desk) : Desk :=
  let desk := match o.precision with
    | some n => { desk with precision := .clamp n }
    | none => desk
  let desk := match o.angle with
    | some unit => { desk with angle := unit }
    | none => desk
  if o.exact then desk.setExact true else desk

end Options

/-- The keypad that a run starts with, and what is told about the state file. -/
def start (o : Options) (source : StateFile.Source) : Except Fault (Keypad × List Print) :=
  match o.statePath? with
  | none => .ok (.new (o.settle {}) [] false, [])
  | some path => (StateFile.read source).map fun loaded =>
    (.new (o.settle loaded.desk) loaded.history true,
      loaded.notice.toList.map fun notice => .errors (notice.message path))

def calculate (o : Options) (k : Keypad) (notices : List Print) (lines : List Text) : Transcript :=
  let turn := turns o.verbose k lines
  { prints := notices ++ turn.prints
    saved := turn.keypad.archive.bind (·.last)
    fault := turn.fault }

/-- Runs the program on its input, with what stands at the path of the state file. -/
def run (o : Options) (source : StateFile.Source) (input : Text) : Transcript :=
  match o.action with
  | .rawGrammar => { prints := [.output grammar] }
  | .dump => match start o source with
    | .error f => { fault := some f }
    | .ok (_, notices) =>
      { prints := notices ++ listingHead :: (o.lines input).flatMap (list o.verbose) }
  | .calculate => match start o source with
    | .error f => { fault := some f }
    | .ok (k, notices) => calculate o k notices (o.lines input)

end DeskCalculator.CommandLine

import DeskCalculator.Evaluation

/-!
# What the program prints

Results go to the output and everything else to the errors, line by line. A problem is told by its
short text. In a verbose run its message and the chain of its causes follow, and every stage of an
evaluation is noted.
-/

namespace DeskCalculator.CommandLine

/-- A line that the program prints, without its line feed. -/
inductive Print where
  | output (line : Text)
  | errors (line : Text)
  deriving DecidableEq, Repr

namespace Print

def outputText (prints : List Print) : Text :=
  prints.flatMap fun
    | output line => line ++ ['\n']
    | errors _ => []

def errorsText (prints : List Print) : Text :=
  prints.flatMap fun
    | output _ => []
    | errors line => line ++ ['\n']

def error (s : String) : Print := errors (Text.ofString s)

/-! ## Problems -/

def className : Stage → String
  | .lexical => "LexError"
  | .structural => "ParseError"
  | .numeric => "NumericError"

def causeName : ArithmeticFault → String
  | .domain | .factorialOfNegative | .signalingNaN => "ValueError"
  | .range | .quotientTooLarge | .factorialTooLarge => "OverflowError"
  | .zeroDivisor | .integerZeroDivisor => "ZeroDivisionError"

/-- The fault behind a problem, as the start of a chain. -/
def causes : Problem → List Print
  | .failed _ cause => [
      error (causeName cause ++ ": " ++ cause.message),
      error "",
      error "The above exception was the direct cause of the following exception:",
      error ""]
  | _ => []

/-- The message of a problem and the chain of its causes. -/
def details (p : Problem) : List Print :=
  error p.message :: causes p ++
    [error ("scicalc.util." ++ className p.kind.stage ++ ": " ++ p.message)]

def report (verbose : Bool) (p : Problem) : List Print :=
  errors p.display :: if verbose then details p else []

/-! ## Notes of a verbose run -/

def tokensNote (t : Text) (tokens : List Token) : Print :=
  errors (Text.ofString "scicalc.lexer: lexed " ++ Text.quoted t ++ Text.ofString " into " ++
    Text.ofNat tokens.length ++ Text.ofString " tokens")

def itemsNote (items : List Item) : Print :=
  errors (Text.ofString "scicalc.parser: parsed into [" ++
    Text.join [',', ' '] (items.map Item.shown) ++ [']'])

/-- Notes how far a text can be read. -/
def readingNotes (t : Text) : List Print :=
  match Token.scan t with
  | .error _ => []
  | .ok tokens => tokensNote t tokens :: match Postfix.ofTokens tokens with
    | .error _ => []
    | .ok items => [itemsNote items]

def failureNote (t : Text) (p : Problem) : Print :=
  errors (Text.ofString "scicalc.calculator: evaluating " ++ Text.quoted t ++
    Text.ofString (" failed: " ++ p.message))

/-- Notes that a problem is shown in place of a buffer. -/
def shownNote (buffer : Text) (p : Problem) : Print :=
  errors (Text.ofString "scicalc.controller: showing " ++ p.display ++ Text.ofString " for " ++
    Text.quoted buffer)

end Print

end DeskCalculator.CommandLine

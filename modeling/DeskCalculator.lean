import DeskCalculator.Main
import DeskCalculator.Proofs.CommandLine.Archive
import DeskCalculator.Proofs.CommandLine.Registers
import DeskCalculator.Proofs.CommandLine.Resuming
import DeskCalculator.Proofs.CommandLine.Spelling
import DeskCalculator.Proofs.Counting.Accuracy
import DeskCalculator.Proofs.Counting.Exact
import DeskCalculator.Proofs.Counting.Rounded
import DeskCalculator.Proofs.Decimal.Displayed
import DeskCalculator.Proofs.Decimal.HalfUp
import DeskCalculator.Proofs.Decimal.NonFinite
import DeskCalculator.Proofs.Decimal.Normal
import DeskCalculator.Proofs.Decimal.Notation
import DeskCalculator.Proofs.Decimal.Parts
import DeskCalculator.Proofs.Decimal.Plain
import DeskCalculator.Proofs.Decimal.Reading
import DeskCalculator.Proofs.Decimal.RelativeError
import DeskCalculator.Proofs.Decimal.Representable
import DeskCalculator.Proofs.Decimal.Results
import DeskCalculator.Proofs.Decimal.Rounding
import DeskCalculator.Proofs.Decimal.SameNumber
import DeskCalculator.Proofs.Decimal.Scaled
import DeskCalculator.Proofs.Decimal.Scientific
import DeskCalculator.Proofs.Decimal.Sticky
import DeskCalculator.Proofs.Decimal.SumOverflow
import DeskCalculator.Proofs.Decimal.Whole
import DeskCalculator.Proofs.Decimal.WholePower
import DeskCalculator.Proofs.Desk.MemorySums
import DeskCalculator.Proofs.Double.Nearest
import DeskCalculator.Proofs.Double.NonFinite
import DeskCalculator.Proofs.Double.Overflow
import DeskCalculator.Proofs.Double.Shortest
import DeskCalculator.Proofs.Double.Whole
import DeskCalculator.Proofs.Evaluation.Continuation
import DeskCalculator.Proofs.Evaluation.Numerals
import DeskCalculator.Proofs.Evaluation.PlainText
import DeskCalculator.Proofs.Evaluation.Words
import DeskCalculator.Proofs.Expression.Alternation
import DeskCalculator.Proofs.Expression.CallArity
import DeskCalculator.Proofs.Expression.Decoding
import DeskCalculator.Proofs.Expression.Grammar
import DeskCalculator.Proofs.Expression.Infix
import DeskCalculator.Proofs.Expression.Integer
import DeskCalculator.Proofs.Expression.Items
import DeskCalculator.Proofs.Expression.Lexing
import DeskCalculator.Proofs.Expression.Nesting
import DeskCalculator.Proofs.Expression.Origins
import DeskCalculator.Proofs.Expression.Parsing
import DeskCalculator.Proofs.Expression.Rescanning
import DeskCalculator.Proofs.Expression.Seams
import DeskCalculator.Proofs.Expression.Spelling
import DeskCalculator.Proofs.Expression.Splicing
import DeskCalculator.Proofs.Expression.Tiling
import DeskCalculator.Proofs.Expression.Tree
import DeskCalculator.Proofs.Json.Numbers
import DeskCalculator.Proofs.Json.Regular
import DeskCalculator.Proofs.Json.RoundTrip
import DeskCalculator.Proofs.Json.Strings
import DeskCalculator.Proofs.Keypad.Archive
import DeskCalculator.Proofs.Keypad.Consistency
import DeskCalculator.Proofs.Keypad.Evaluation
import DeskCalculator.Proofs.Keypad.FiniteRegisters
import DeskCalculator.Proofs.Keypad.History
import DeskCalculator.Proofs.Keypad.PostfixKeys
import DeskCalculator.Proofs.Keypad.ShownNumber
import DeskCalculator.Proofs.Numeral.DigitCount
import DeskCalculator.Proofs.Numeral.Rounding
import DeskCalculator.Proofs.Stack.ExactRun
import DeskCalculator.Proofs.Stack.Faults
import DeskCalculator.Proofs.Stack.IntegerOperations
import DeskCalculator.Proofs.Stack.ModeAgreement
import DeskCalculator.Proofs.Stack.NonFinite
import DeskCalculator.Proofs.Stack.PostfixSigns
import DeskCalculator.Proofs.Stack.Precision
import DeskCalculator.Proofs.Stack.Results
import DeskCalculator.Proofs.Stack.Step
import DeskCalculator.Proofs.Stack.Storable
import DeskCalculator.Proofs.Stack.TreeRun
import DeskCalculator.Proofs.Stack.TreeValue
import DeskCalculator.Proofs.StateFile.Loaded
import DeskCalculator.Proofs.StateFile.Loading
import DeskCalculator.Proofs.StateFile.RoundTrip
import DeskCalculator.Proofs.Text.Integer
import DeskCalculator.Proofs.Value.Display
import DeskCalculator.Proofs.Value.DisplayAccuracy
import DeskCalculator.Proofs.Value.DisplayNotation
import DeskCalculator.Proofs.Value.Number
import DeskCalculator.Proofs.Value.SameText
import DeskCalculator.Proofs.Value.Text
import DeskCalculator.Proofs.Value.Yields

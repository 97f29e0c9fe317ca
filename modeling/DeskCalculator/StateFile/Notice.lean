import DeskCalculator.Text.Basic

/-!
# Notices about the state file

The state file is kept as well as possible: a file that cannot be used or written does not stop the
program, but it is told.
-/

namespace DeskCalculator.StateFile

inductive Notice where
  /-- The file cannot be read, or it is no JSON text. -/
  | unreadable
  /-- The file does not hold a usable state. -/
  | malformed
  /-- The file cannot be written. -/
  | unsaved
  deriving DecidableEq, Repr

def Notice.message (notice : Notice) (path : Text) : Text :=
  Text.ofString (match notice with
    | unreadable => "scicalc.store: ignoring unreadable state "
    | malformed => "scicalc.store: ignoring malformed state "
    | unsaved => "scicalc.store: could not save state to ") ++ path

end DeskCalculator.StateFile

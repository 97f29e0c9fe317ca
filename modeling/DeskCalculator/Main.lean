import DeskCalculator.CommandLine.Run

/-!
# The program

Reads the arguments, the state file and the input, and prints what the run prints. All that it
decides itself is where things are read from and written to.
-/

namespace DeskCalculator.Main

open CommandLine

def usage : String := "usage: scicalc [-h] [-v] [-s FILE] [--precision PRECISION] [--exact]
               [--degrees | --radians] [-e ... | -p [PROMPT]] [-G | -D]"

/-- The path that a name stands for: a tilde at its start is the home directory. -/
def resolve (name : Text) : IO String := do
  match name, ← IO.getEnv "HOME" with
  | ['~'], some home => return home
  | '~' :: '/' :: rest, some home => return home ++ "/" ++ rest.toString
  | _, _ => return name.toString

def readSource (path : String) : IO StateFile.Source := do
  try return .ofBytes (← IO.FS.readBinFile path)
  catch
    | .noFileOrDirectory .. => return .absent
    | _ => return .unreadable

/-- Everything that is left of the input. -/
partial def readInput (stream : IO.FS.Stream) (before : String) : IO String := do
  let line ← stream.getLine
  if line.isEmpty then return before else readInput stream (before ++ line)

/-- Writes the state file, and tells if that fails. -/
def writeState (name t : Text) : IO Unit := do
  try IO.FS.writeFile (← resolve name) t.toString
  catch _ => IO.eprintln (StateFile.Notice.unsaved.message name).toString

/-- Prints what a run prints, and leaves its state. Tells a fault by its message. -/
def finish (o : Options) (transcript : Transcript) : IO UInt32 := do
  IO.print (Print.outputText transcript.prints).toString
  IO.eprint (Print.errorsText transcript.prints).toString
  if let (some name, some t) := (o.statePath?, transcript.saved) then writeState name t
  match transcript.fault with
  | none => return 0
  | some fault =>
    IO.eprintln fault.message
    return 1

def runWith (o : Options) : IO UInt32 := do
  let source ← match o.statePath? with
    | some name => readSource (← resolve name)
    | none => pure .absent
  let input ← if o.readsInput then readInput (← IO.getStdin) "" else pure ""
  finish o (run o source input.toList)

end DeskCalculator.Main

def main (arguments : List String) : IO UInt32 :=
  match DeskCalculator.CommandLine.Options.ofArguments (arguments.map String.toList) with
  | .error .help => do IO.println DeskCalculator.Main.usage; return 0
  | .error .misuse => do IO.eprintln DeskCalculator.Main.usage; return 2
  | .ok options => DeskCalculator.Main.runWith options

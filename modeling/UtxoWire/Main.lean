import UtxoWire.CommandLine.Run

/-!
# The program

The outer layer: finds out what the arguments ask for, reads the document it needs, and prints what
comes of it.
-/

namespace UtxoWire.CommandLine

/-- Why a document cannot be had, in the words of the system. -/
def systemReason (error : IO.Error) : String :=
  match error with
  | .noFileOrDirectory _ code details => s!"{details} (os error {code.toNat})"
  | error => error.toString

/-- Reads a document. -/
def Source.read (source : Source) : IO Contents := do
  try
    match source with
    | .standardInput => return .ok (← (← IO.getStdin).readToEnd)
    | .file path => return .ok (← IO.FS.readFile path)
  catch error => return .error (systemReason error)

/-- Runs the command that the arguments ask for. -/
def runArguments (arguments : List String) : IO Outcome := do
  match Command.ofArguments? arguments with
  | none => return Outcome.improper
  | some command =>
    match command.source? with
    | none => return outcome command (.ok "")
    | some source => return outcome command (← source.read)

end UtxoWire.CommandLine

/-- Prints what a run leaves behind. -/
def main (arguments : List String) : IO UInt32 := do
  let outcome ← UtxoWire.CommandLine.runArguments arguments
  IO.print outcome.output
  IO.eprint outcome.report
  return UInt32.ofNat outcome.exitCode

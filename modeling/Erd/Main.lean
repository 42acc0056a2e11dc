import Erd.Command.Run

/-!
# The program

Reads what the arguments name, runs the command and carries its outcome out.  The environment may name a
configuration file by `ERDKIT_CONFIG`.
-/

namespace Erd.Command

/-- The rest of a stream behind a text. -/
partial def readRest (stream : IO.FS.Stream) (text : String) : IO String := do
  let line ← stream.getLine
  if line.isEmpty then return text else readRest stream (text ++ line)

/-- A file under its own name, or nothing if it cannot be read. -/
def readFile? (path : String) : IO (Option (String × String)) := do
  try return some (path, ← IO.FS.readFile path)
  catch _ => return none

/-- Prints what a run gives and writes the file that it changes. -/
def carryOut (o : Outcome) : IO UInt32 := do
  if let some (name, text) := o.write then IO.FS.writeFile name text
  if o.unknownEngine then IO.eprintln "warning: unknown layout engine"
  IO.print o.output
  if let some text := o.errorText then IO.eprint text
  return UInt32.ofNat o.exitCode

/-- Runs the command that the arguments ask for. -/
def execute (environment : Option String) (args : List String) : IO UInt32 := do
  match Arguments.read environment args with
  | .usage =>
    IO.eprintln "error: the arguments do not fit"
    return 2
  | .version subcommand =>
    IO.print (versionText subcommand)
    return 0
  | .run a =>
    let files ← a.files.filterMapM readFile?
    let stdin ← if a.readsStandardInput then readRest (← IO.getStdin) "" else pure ""
    carryOut (run { files, stdin } a)

end Erd.Command

def main (args : List String) : IO UInt32 := do
  Erd.Command.execute (← IO.getEnv "ERDKIT_CONFIG") args

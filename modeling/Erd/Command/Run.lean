import Erd.Command.Arguments
import Erd.Diagram.OfSchema
import Erd.Grammar.Print
import Erd.Json.Writer
import Erd.Schema.Changes
import Erd.Schema.Check
import Erd.Settings

/-!
# Carrying out a command

`run` is a function from the arguments, the files and the standard input to what is printed, what fails
and which file is written.  The configuration is loaded first, then the sources are read and parsed one by
one.  No command writes a file but the one that formats a source in place, and only after the source was
parsed.
-/

namespace Erd.Command

/-! ## Files -/

/-- Files by name. -/
abbrev Files := List (String × String)

/-- The parts of a path, without those that stay in place, behind the root if it starts there. -/
def pathParts (path : String) : List String :=
  let parts := (path.splitOn "/").filter fun part => part != "" && part != "."
  if path.startsWith "/" then "/" :: parts else parts

/-- The file that a path leads to, by its own name. -/
def fileAt? (files : Files) (path : String) : Option (String × String) :=
  files.find? fun file => pathParts file.1 == pathParts path

/-- How messages call a source. -/
def sourceName (path : String) : String := if isStandardInput path then "<stdin>" else path

/-! ## Failures -/

inductive Failure where
  /-- A source that cannot be read. -/
  | source (path : String)
  | syntaxError (path : String) (error : SyntaxError)
  /-- A configuration file that cannot be read. -/
  | configFile (path : String)
  /-- A configuration that is no TOML or does not fit. -/
  | config
  | invalid (path : String) (errors : Nat)
deriving DecidableEq, Repr

namespace Failure

def noSuchFile : String := "No such file or directory (os error 2)"

def message : Failure → String
  | source path => "IO error for " ++ path ++ ": " ++ noSuchFile
  | syntaxError path e =>
    sourceName path ++ ":" ++ toString e.line ++ ":" ++ toString e.column ++ ": " ++ e.message
  | configFile path => "failed to read config " ++ path ++ ": " ++ noSuchFile
  | config => "invalid config"
  | invalid path errors => path ++ " has " ++ toString errors ++ " validation error(s)"

def exitCode : Failure → Nat
  | syntaxError _ _ => 3
  | invalid _ _ => 4
  | _ => 1

end Failure

/-! ## Runs -/

/-- The files and the standard input of a run. -/
structure Inputs where
  files : Files := []
  stdin : String := ""
deriving Repr

/-- What a run prints, how it fails and which file it writes. -/
structure Outcome where
  output : String := ""
  failure : Option Failure := none
  /-- Whether an engine was asked for that is not known. -/
  unknownEngine : Bool := false
  write : Option (String × String) := none
deriving Repr

namespace Outcome

def printing (text : String) : Outcome := { output := text }

def failing (f : Failure) : Outcome := { failure := some f }

def exitCode (o : Outcome) : Nat :=
  match o.failure with
  | none => 0
  | some f => f.exitCode

/-- What is said of a failure. -/
def errorText (o : Outcome) : Option String := o.failure.map fun f => "error: " ++ f.message ++ "\n"

/-- The outcome of a step that may fail, and else of the steps behind it. -/
def after (step : Except Failure β) (next : β → Outcome) : Outcome :=
  match step with
  | .error f => failing f
  | .ok b => next b

/-- The files after a run. -/
def filesAfter (o : Outcome) (files : Files) : Files :=
  match o.write with
  | none => files
  | some (name, text) => files.map fun file => if file.1 == name then (name, text) else file

/-- The files whose text a run changes, with the new text. -/
def changedFiles (o : Outcome) (files : Files) : Files :=
  match o.write with
  | none => []
  | some (name, text) => if files.lookup name == some text then [] else [(name, text)]

end Outcome

/-- The schema of a source. -/
def load (i : Inputs) (path : String) : Except Failure Schema :=
  let text? := if isStandardInput path then some i.stdin else (fileAt? i.files path).map (·.2)
  match text? with
  | none => .error (.source path)
  | some text =>
    match Schema.parse text with
    | .error e => .error (.syntaxError path e)
    | .ok s => .ok s

/-- The inputs after a source was read; the standard input can be read once. -/
def Inputs.afterReading (i : Inputs) (path : String) : Inputs :=
  if isStandardInput path then { i with stdin := "" } else i

def jsonText (compact : Bool) (x : Json) : String :=
  (if compact then x.compact else x.indented) ++ "\n"

section

variable {α : Type} [Scalar α] [Coordinate α]

def loadSettings (i : Inputs) (config : Option String) : Except Failure (Settings α) :=
  match config with
  | none => .ok .standard
  | some path =>
    match fileAt? i.files path with
    | none => .error (.configFile path)
    | some (_, text) =>
      match Settings.parse? text with
      | none => .error .config
      | some s => .ok s

def runParse (i : Inputs) (compact : Bool) (path : String) : Outcome :=
  .after (load i path) fun s => .printing (jsonText compact s.toJson)

/-- One line for each finding, and one more if the schema is valid. -/
def runValidate (i : Inputs) (path : String) : Outcome :=
  .after (load i path) fun s =>
    let report := s.check
    let lines := String.join (report.diagnostics.map fun d => d.severity.name ++ ": " ++ d.message ++ "\n")
    if report.valid then .printing (lines ++ sourceName path ++ ": ok\n")
    else { output := lines, failure := some (.invalid path report.errorCount) }

def runGraph (i : Inputs) (settings : Settings α) (compact : Bool) (path : String) : Outcome :=
  .after (load i path) fun s =>
    .printing (jsonText compact (s.toDiagram settings.metrics).toJson)

/-- The layout options with what the request sets in place of the settings. -/
def requestedOptions (o : LayoutOptions α) (r : LayoutRequest) : LayoutOptions α :=
  let number (x : Option Binary64) (a : α) : α := (x.map Coordinate.ofBinary).getD a
  { direction := r.direction.getD o.direction
    nodeSpacing := number r.nodeSpacing o.nodeSpacing
    rankSpacing := number r.rankSpacing o.rankSpacing
    padding := number r.padding o.padding }

def runLayout (i : Inputs) (settings : Settings α) (compact : Bool) (r : LayoutRequest) : Outcome :=
  let registry : Registry α := .standard
  if r.listEngines then .printing (String.join (registry.names.map (· ++ "\n")))
  else
    .after (load i (r.file.getD standardInput)) fun s =>
      let engine := some (r.engine.getD settings.engine)
      let options := requestedOptions settings.layout r
      let d := registry.layout engine options settings.metrics (s.toDiagram settings.metrics)
      { output := jsonText compact d.toJson, unknownEngine := registry.isUnknown engine }

/-- The old source is judged before the new one is read. -/
def runDiff (i : Inputs) (compact json : Bool) (old new : String) : Outcome :=
  .after (load i old) fun s =>
    .after (load (i.afterReading old) new) fun t =>
      let d := s.changes t
      .printing (if json then jsonText compact d.toJson else d.log)

def runFormat (i : Inputs) (write : Bool) (path : String) : Outcome :=
  .after (load i path) fun s =>
    match write && !isStandardInput path, fileAt? i.files path with
    | true, some (name, _) => { write := some (name, s.print) }
    | _, _ => .printing s.print

/-- One task with the settings that were loaded. -/
def runTask (i : Inputs) (settings : Settings α) (compact : Bool) : Task → Outcome
  | .parse path => runParse i compact path
  | .validate path => runValidate i path
  | .graph path => runGraph i settings compact path
  | .layout r => runLayout i settings compact r
  | .diff old new json => runDiff i compact json old new
  | .format path write => runFormat i write path

end

def run (i : Inputs) (a : Arguments) : Outcome :=
  .after (loadSettings i a.config) fun (settings : Settings Float) =>
    runTask i settings a.compact a.task

/-- What is printed for a version. -/
def versionText (subcommand : Option String) : String :=
  match subcommand with
  | none => "erdkit 0.1.0\n"
  | some name => "erdkit-" ++ name ++ " 0.1.0\n"

end Erd.Command

import Erd.Command.Switches
import Erd.Decimal.Literal
import Erd.Layout.Options

/-!
# The arguments of a run

`Arguments.read` takes a command line apart.  Some switches may stand before or behind the name of the
subcommand; given at both places, the one behind counts.  The configuration file may also be named by the
environment.
-/

namespace Erd.Command

/-- The path that stands for the standard input. -/
def standardInput : String := "-"

def isStandardInput (path : String) : Bool := path == standardInput

structure LayoutRequest where
  file : Option String
  engine : Option String := none
  direction : Option Direction := none
  nodeSpacing : Option Binary64 := none
  rankSpacing : Option Binary64 := none
  padding : Option Binary64 := none
  listEngines : Bool := false
deriving DecidableEq, Repr

inductive Task where
  | parse (file : String)
  | validate (file : String)
  | graph (file : String)
  | layout (request : LayoutRequest)
  | diff (old new : String) (json : Bool)
  | format (file : String) (write : Bool)
deriving DecidableEq, Repr

structure Arguments where
  task : Task
  config : Option String := none
  compact : Bool := false
deriving DecidableEq, Repr

/-! ## Levels -/

def isPath (s : String) : Bool := !s.isEmpty

def isNumber (s : String) : Bool := (Binary64.ofText? s).isSome

def isDirection (s : String) : Bool := (Direction.parse? s).isSome

/-- The switches of the program and of every subcommand. -/
def globalSwitches : List Switch :=
  [{ name := "config", letter := some 'c', kind := .valued isPath },
   { name := "verbose", letter := some 'v', kind := .counted },
   { name := "compact", kind := .flag },
   { name := "version", letter := some 'V', kind := .version }]

def layoutSwitches : List Switch :=
  [{ name := "engine", letter := some 'e', kind := .valued fun _ => true },
   { name := "direction", letter := some 'd', kind := .valued isDirection },
   { name := "spacing-x", kind := .valued isNumber },
   { name := "spacing-y", kind := .valued isNumber },
   { name := "padding", kind := .valued isNumber },
   { name := "list-engines", kind := .flag }]

def diffSwitches : List Switch := [{ name := "json", kind := .flag }]

def formatSwitches : List Switch := [{ name := "write", letter := some 'w', kind := .flag }]

def subcommands : List String := ["parse", "validate", "graph", "layout", "diff", "fmt"]

def programLevel : Level := { switches := globalSwitches, subcommands }

/-- The level of a subcommand with switches of its own. -/
def taskLevel (own : List Switch) (operands : Nat) : Level :=
  { switches := own ++ globalSwitches, operands, acceptsOperand := isPath }

def levelOf (name : String) : Level :=
  match name with
  | "layout" => taskLevel layoutSwitches 1
  | "diff" => taskLevel diffSwitches 2
  | "fmt" => taskLevel formatSwitches 1
  | _ => taskLevel [] 1

/-! ## Tasks -/

/-- The request of a layout; listing the engines goes with neither an engine nor a direction, and only a
list needs no file. -/
def layoutTask (g : Given) : Except Stop Task :=
  let listEngines := g.has "list-engines"
  let file := g.operands.head?
  let engine := g.value? "engine"
  let direction := g.value? "direction"
  if listEngines && (engine.isSome || direction.isSome) then .error .usage
  else if file.isNone && !listEngines then .error .usage
  else
    .ok (.layout {
      file, engine, listEngines
      direction := direction.bind Direction.parse?
      nodeSpacing := (g.value? "spacing-x").bind Binary64.ofText?
      rankSpacing := (g.value? "spacing-y").bind Binary64.ofText?
      padding := (g.value? "padding").bind Binary64.ofText? })

/-- The task of a subcommand and what was given for it. -/
def taskOf (name : String) (g : Given) : Except Stop Task :=
  match name, g.operands with
  | "parse", [file] => .ok (.parse file)
  | "validate", [file] => .ok (.validate file)
  | "graph", [file] => .ok (.graph file)
  | "layout", _ => layoutTask g
  | "diff", [old, new] => .ok (.diff old new (g.has "json"))
  | "fmt", [file] => .ok (.format file (g.has "write"))
  | _, _ => .error .usage

/-- What a command line asks for. -/
inductive Reading where
  | usage
  /-- The version of the program or of one of its subcommands. -/
  | version (subcommand : Option String)
  | run (arguments : Arguments)
deriving DecidableEq, Repr

namespace Reading

def ofStop (subcommand : Option String) : Stop → Reading
  | .usage => usage
  | .version => version subcommand

end Reading

namespace Task

/-- The paths of the sources that a task reads, in order. -/
def sources : Task → List String
  | parse file | validate file | graph file | format file _ => [file]
  | layout r => if r.listEngines then [] else [r.file.getD standardInput]
  | diff old new _ => [old, new]

end Task

namespace Arguments

/-- The files that a run reads. -/
def files (a : Arguments) : List String :=
  a.config.toList ++ a.task.sources.filter fun path => !isStandardInput path

def readsStandardInput (a : Arguments) : Bool := a.task.sources.any isStandardInput

/-- The configuration file: behind the subcommand, before it, or in the environment. -/
def configOf (environment : Option String) (outer inner : Given) : Option String :=
  match inner.value? "config" with
  | some path => some path
  | none =>
    match outer.value? "config" with
    | some path => some path
    | none => environment

/-- Whether the environment names a configuration file, but with an empty name.  Each level that is not
given one takes the name from there. -/
def badEnvironment (environment : Option String) (outer inner : Given) : Bool :=
  environment == some ""
    && ((outer.value? "config").isNone || (inner.value? "config").isNone)

def read (environment : Option String) (args : List String) : Reading :=
  match programLevel.read {} none args with
  | .error stop => .ofStop none stop
  | .ok (_, none) => .usage
  | .ok (outer, some (name, rest)) =>
    match (levelOf name).read {} none rest with
    | .error stop => .ofStop (some name) stop
    | .ok (inner, _) =>
      match taskOf name inner with
      | .error stop => .ofStop (some name) stop
      | .ok task =>
        if badEnvironment environment outer inner then .usage
        else
          .run {
            task
            config := configOf environment outer inner
            compact := outer.has "compact" || inner.has "compact" }

end Arguments

end Erd.Command

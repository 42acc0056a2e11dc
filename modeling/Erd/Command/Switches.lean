/-!
# Switches and operands

A command line is read level by level: the switches of the program up to the name of a subcommand, then
the switches and operands of the subcommand.  A switch is written `--name` or as one letter behind a dash,
where letters may be put together; its value follows as the next argument or is attached to it.  Behind
`--` everything is an operand.
-/

namespace Erd.Command

inductive SwitchKind where
  /-- May be given once. -/
  | flag
  /-- May be given any number of times. -/
  | counted
  /-- Takes a value that is accepted, and may be given once. -/
  | valued (accepts : String → Bool)
  /-- Asks for the version. -/
  | version

structure Switch where
  name : String
  letter : Option Char := none
  kind : SwitchKind

/-- What may be given at one level. -/
structure Level where
  switches : List Switch
  /-- The greatest number of operands. -/
  operands : Nat := 0
  acceptsOperand : String → Bool := fun _ => true
  subcommands : List String := []

/-- Why a command line is not carried out. -/
inductive Stop where
  | usage
  | version
deriving DecidableEq, Repr

/-- What was given at one level. -/
structure Given where
  flags : List String := []
  values : List (String × String) := []
  operands : List String := []
deriving DecidableEq, Repr

namespace Given

def has (g : Given) (flag : String) : Bool := g.flags.contains flag

def value? (g : Given) (name : String) : Option String := g.values.lookup name

def setFlag (g : Given) (name : String) : Except Stop Given :=
  if g.has name then .error .usage else .ok { g with flags := name :: g.flags }

def setValue (g : Given) (name : String) (accepts : String → Bool) (value : String) :
    Except Stop Given :=
  if (g.value? name).isSome || !accepts value then .error .usage
  else .ok { g with values := (name, value) :: g.values }

def addOperand (g : Given) (level : Level) (operand : String) : Except Stop Given :=
  if g.operands.length < level.operands && level.acceptsOperand operand then
    .ok { g with operands := g.operands ++ [operand] }
  else .error .usage

end Given

/-- A switch that waits for its value in the next argument. -/
abbrev Waiting := Option (String × (String → Bool))

namespace Level

def named? (l : Level) (name : String) : Option Switch := l.switches.find? (·.name == name)

def lettered? (l : Level) (c : Char) : Option Switch := l.switches.find? (·.letter == some c)

/-- A value behind a letter, without the equals sign there may be. -/
def attached : List Char → String
  | '=' :: r => String.ofList r
  | r => String.ofList r

/-- The letters behind one dash. -/
def letters (l : Level) (g : Given) : List Char → Except Stop (Given × Waiting)
  | [] => .ok (g, none)
  | c :: r =>
    match l.lettered? c with
    | none => .error .usage
    | some s =>
      match s.kind with
      | .version => .error .version
      | .counted => l.letters g r
      | .flag =>
        match g.setFlag s.name with
        | .ok g => l.letters g r
        | .error e => .error e
      | .valued accepts =>
        if r.isEmpty then .ok (g, some (s.name, accepts))
        else
          match g.setValue s.name accepts (attached r) with
          | .ok g => .ok (g, none)
          | .error e => .error e

/-- A name behind two dashes, with a value behind an equals sign. -/
def long (l : Level) (g : Given) (cs : List Char) : Except Stop (Given × Waiting) :=
  let name := String.ofList (cs.takeWhile (· != '='))
  let value := cs.dropWhile (· != '=')
  match l.named? name with
  | none => .error .usage
  | some s =>
    match s.kind, value with
    | .version, [] => .error .version
    | .counted, [] => .ok (g, none)
    | .flag, [] =>
      match g.setFlag s.name with
      | .ok g => .ok (g, none)
      | .error e => .error e
    | .valued accepts, [] => .ok (g, some (s.name, accepts))
    | .valued accepts, _ :: v =>
      match g.setValue s.name accepts (String.ofList v) with
      | .ok g => .ok (g, none)
      | .error e => .error e
    | _, _ => .error .usage

/-- Whether an argument is written like a switch. -/
def looksLikeSwitch (arg : String) : Bool :=
  match arg.toList with
  | '-' :: _ :: _ => true
  | _ => false

/-- The arguments behind `--`. -/
def operandsOnly (l : Level) (g : Given) : List String → Except Stop Given
  | [] => .ok g
  | arg :: rest =>
    match g.addOperand l arg with
    | .ok g => l.operandsOnly g rest
    | .error e => .error e

/-- One argument in the form of a switch. -/
def switch (l : Level) (g : Given) (arg : String) : Except Stop (Given × Waiting) :=
  match arg.toList with
  | '-' :: '-' :: cs => l.long g cs
  | _ :: cs => l.letters g cs
  | [] => .error .usage

/-- What was given, and the subcommand with the arguments behind it. -/
def read (l : Level) (g : Given) (waiting : Waiting) :
    List String → Except Stop (Given × Option (String × List String))
  | [] => if waiting.isSome then .error .usage else .ok (g, none)
  | arg :: rest =>
    match waiting with
    | some (name, accepts) =>
      if looksLikeSwitch arg then .error .usage
      else
        match g.setValue name accepts arg with
        | .ok g => l.read g none rest
        | .error e => .error e
    | none =>
      if arg == "--" then
        match l.operandsOnly g rest with
        | .ok g => .ok (g, none)
        | .error e => .error e
      else if looksLikeSwitch arg then
        match l.switch g arg with
        | .ok (g, waiting) => l.read g waiting rest
        | .error e => .error e
      else if l.subcommands.contains arg then .ok (g, some (arg, rest))
      else
        match g.addOperand l arg with
        | .ok g => l.read g none rest
        | .error e => .error e

end Level

end Erd.Command

import Erd.Grammar.Table
import Erd.Token.Scanner

/-!
# Documents

    document := (table | enum | ref | group)*
    enum     := "Enum" word "{" ((word | string) ("[" "note" ":" string "]")?)* "}"
    ref      := "Ref" word? ":" word "." word operator word "." word
    group    := "TableGroup" word "{" word* "}"

A document is read as a list of statements, from which the schema is put together.  Columns typed by
the name of an enumeration take its values, wherever it is declared.
-/

namespace Erd

/-! ## Statements as data -/

inductive Statement where
  | table (declaration : TableDeclaration)
  | enum (enumeration : Enumeration)
  | relation (relation : Relation)
  | group (group : TableGroup)
deriving DecidableEq, Repr

namespace Statement

def table? : Statement → Option Table
  | table d => some d.table
  | _ => none

def enum? : Statement → Option Enumeration
  | enum e => some e
  | _ => none

def group? : Statement → Option TableGroup
  | group g => some g
  | _ => none

/-- The relations that a statement declares. -/
def relations : Statement → List Relation
  | table d => d.relations
  | relation r => [r]
  | _ => []

end Statement

namespace Column

/-- A column whose type is the name of an enumeration, the first of that name, with its values. -/
def resolveEnum (enums : List Enumeration) (c : Column) : Column :=
  match c.rawType with
  | none => c
  | some raw =>
    match enums.find? (·.name == raw) with
    | none => c
    | some e =>
      { c with type := .enum, settings := { c.settings with enumValues := some e.valueNames } }

end Column

namespace Schema

/-- Every column resolved against the enumerations of the schema. -/
def resolveEnums (s : Schema) : Schema :=
  { s with
    tables := s.tables.map fun t => { t with columns := t.columns.map (Column.resolveEnum s.enums) } }

/-- The schema that statements declare, columns not yet resolved. -/
def declared (statements : List Statement) : Schema :=
  { tables := statements.filterMap Statement.table?
    relations := statements.flatMap Statement.relations
    enums := statements.filterMap Statement.enum?
    groups := statements.filterMap Statement.group? }

def ofStatements (statements : List Statement) : Schema := (declared statements).resolveEnums

end Schema

namespace Production

/-! ## Enumerations -/

/-- A note between brackets. -/
def enumNote : Production (Option String) := do
  if ← accept .openBracket then
    if ← accept .note then
      let _ ← expect .colon
      let text ← string
      let _ ← expect .closeBracket
      return some text
    else expected .noteWord
  else return none

/-- One value, or none at the closing brace. -/
def enumValue : Production (Option EnumValue) := do
  skipNewlines
  let k := (← peek).kind
  if k = .closeBrace then
    advance
    return none
  else if k.isWord ∨ k = .string then
    let name := (← next).value
    return some ⟨name, ← enumNote⟩
  else expected .enumValue

def enumeration : Production Enumeration := do
  let _ ← expect .enum
  let name ← word .enumName
  skipNewlines
  let _ ← expect .openBrace
  return ⟨name, ← many enumValue⟩

/-! ## Relations -/

def relationName : Production (Option String) := do
  if ← check .colon then return none else return some (← word .relationName)

def relation : Production Relation := do
  let _ ← expect .ref
  let name ← relationName
  let _ ← expect .colon
  let source ← endpoint
  let type ← relationType
  let target ← endpoint
  return { name, source, target, type }

/-! ## Groups -/

/-- One table name, or none at the closing brace. -/
def groupMember : Production (Option String) := do
  skipNewlines
  if ← accept .closeBrace then return none else return some (← word .groupMember)

def tableGroup : Production TableGroup := do
  let _ ← expect .tableGroup
  let name ← word .groupName
  skipNewlines
  let _ ← expect .openBrace
  return ⟨name, ← many groupMember⟩

/-! ## Documents -/

/-- One statement, or none at the end of the source. -/
def statement : Production (Option Statement) := do
  skipNewlines
  let t ← peek
  match t.kind with
  | .endOfInput => return none
  | .table => return some (.table (← table))
  | .enum => return some (.enum (← enumeration))
  | .ref => return some (.relation (← relation))
  | .tableGroup => return some (.group (← tableGroup))
  | _ => throw ⟨.statement, t⟩

def document : Production Schema := return .ofStatements (← many statement)

end Production

namespace Schema

/-- The schema that a list of tokens writes. -/
def ofTokens (ts : List Token) : Except SyntaxError Schema :=
  match Production.document (.ofTokens ts) with
  | .ok s _ => .ok s
  | .error e _ => .error e

/-- The schema that a source writes. -/
def parse (source : String) : Except SyntaxError Schema := ofTokens (tokenize source)

end Schema

end Erd

import Erd.Grammar.Column

/-!
# Tables

    table   := "Table" word ("." word)? ("as" word)? "{" (column | indexes | note | token)* "}"
    indexes := "indexes" "{" ((word | "(" word ("," word)* ")") settings? | token)* "}"

A token in a body that starts none of its items is passed over.
-/

namespace Erd

/-! ## Bodies as data -/

/-- One item between the brackets of an index. -/
inductive IndexItem where
  | unique
  | name (text : Option String)
  | type (text : Option String)
  | ignored
deriving DecidableEq, Repr

namespace Index

def withItem (i : Index) : IndexItem → Index
  | .unique => { i with unique := true }
  | .name text => { i with name := text }
  | .type text => { i with type := text }
  | .ignored => i

def ofItems (columns : List String) (items : List IndexItem) : Index :=
  items.foldl withItem { columns }

end Index

/-- One item of the body of a table. -/
inductive TableItem where
  | column (declaration : ColumnDeclaration)
  | indexes (entries : List Index)
  | note (text : String)
  /-- A token that starts no item. -/
  | skipped
deriving DecidableEq, Repr

namespace TableItem

def column? : TableItem → Option ColumnDeclaration
  | column d => some d
  | _ => none

def indexes? : TableItem → Option (List Index)
  | indexes entries => some entries
  | _ => none

def note? : TableItem → Option String
  | note text => some text
  | _ => none

end TableItem

/-- A table as declared, with the relations declared at its columns. -/
structure TableDeclaration where
  table : Table
  relations : List Relation
deriving DecidableEq, Repr

namespace TableDeclaration

/-- The relations from a column of a table to the targets declared at it. -/
def inlineRelations (table : String) (d : ColumnDeclaration) : List Relation :=
  d.references.map fun (type, target) =>
    { source := ⟨table, d.column.name⟩, target, type }

/-- The table of a name and body items; of several index blocks or notes the last one counts. -/
def ofItems (name : String) (schema shortName : Option String) (items : List TableItem) :
    TableDeclaration :=
  let declared := items.filterMap TableItem.column?
  { table :=
      { name, schema, shortName
        columns := declared.map (·.column)
        indexes := (items.filterMap TableItem.indexes?).getLast?.getD []
        note := (items.filterMap TableItem.note?).getLast? }
    relations := declared.flatMap (inlineRelations name) }

end TableDeclaration

namespace Production

/-! ## Indexes -/

/-- The value of an index setting, if a colon follows its key. -/
def indexSettingValue : Production (Option String) := do
  if ← accept .colon then
    let k := (← peek).kind
    if k.isWord ∨ k = .string then return some (← next).value else expected .indexSettingValue
  else return none

/-- The item of a key in lower case and a value. -/
def indexItemOf (key : String) (value : Option String) : IndexItem :=
  match key with
  | "unique" | "pk" => .unique
  | "name" => .name value
  | "type" => .type value
  | _ => .ignored

def indexSetting : Production IndexItem := do
  let key ← word .indexSetting
  let value ← indexSettingValue
  return indexItemOf (asciiLower key) value

/-- The index on some columns with the settings that follow. -/
def indexOn (columns : List String) : Production Index := do
  if ← accept .openBracket then
    let items ← commaList indexSetting
    let _ ← expect .closeBracket
    return .ofItems columns items
  else return .ofItems columns []

/-- One entry of an index block, none in it for a token that is passed over. -/
def indexEntry : Production (Option (Option Index)) := do
  skipNewlines
  match (← peek).kind with
  | .closeBrace => advance; return none
  | .endOfInput => expected (.kind .closeBrace)
  | .openParen =>
    advance
    let columns ← commaList (word .columnName)
    let _ ← expect .closeParen
    return some (some (← indexOn columns))
  | k =>
    if k.isWord then
      let column := (← next).value
      return some (some (← indexOn [column]))
    else
      advance
      return some none

def indexes : Production (List Index) := do
  let _ ← expect .indexes
  let _ ← expect .openBrace
  return (← many indexEntry).filterMap id

/-! ## Tables -/

/-- One item of a body, or none at its closing brace. -/
def tableItem : Production (Option TableItem) := do
  skipNewlines
  let first := (← peek).kind
  let second := (← second).kind
  if first = .closeBrace then
    advance
    return none
  else if first = .endOfInput then expected (.kind .closeBrace)
  else if first = .note ∧ second = .colon then
    advance
    advance
    return some (.note (← string))
  else if first = .indexes ∧ second = .openBrace then return some (.indexes (← indexes))
  else if first.isWord ∧ second.isWord then return some (.column (← column))
  else
    advance
    return some .skipped

/-- Name, and schema in front of it if there is a dot. -/
def tableName : Production (String × Option String) := do
  let first ← word .tableName
  if ← accept .dot then return (← word .tableName, some first) else return (first, none)

def tableAlias : Production (Option String) := do
  if ← accept .asWord then return some (← word .tableAlias) else return none

def table : Production TableDeclaration := do
  let _ ← expect .table
  let (name, schema) ← tableName
  let shortName ← tableAlias
  skipNewlines
  let _ ← expect .openBrace
  return .ofItems name schema shortName (← many tableItem)

end Production

end Erd

import Erd.Grammar.Document

/-!
# Printing schemas

`Schema.print` writes a schema in its one canonical form: enumerations, tables, relations and groups,
with a blank line between blocks and all relations in one block.  Relations declared at a column come
out as statements of their own, which read back as the same relations.
-/

namespace Erd

/-! ## Literals -/

/-- A character inside single quotes. -/
def escapedInQuotes (c : Char) : List Char :=
  if c == singleQuote || c == backslash then [backslash, c] else [c]

/-- A text as a string literal. -/
def quote (s : String) : String :=
  String.ofList (singleQuote :: s.toList.flatMap escapedInQuotes ++ [singleQuote])

/-- A text as a word if it is one, else as a string literal. -/
def wordOrString (s : String) : String := if isWord s.toList then s else quote s

/-- Whether a text without quotes reads back as the default value of that text. -/
def isBareDefault (s : String) : Bool :=
  match Production.defaultValue (.ofTokens (tokenize s)) with
  | .ok (.string value) c => value == s && c.peek.kind == .endOfInput
  | _ => false

/-- Whether a text is a single call, which is written without quotes. -/
def isCall (s : String) : Bool := s.toList.getLast? == some ')' && isBareDefault s

namespace DefaultValue

def literal : DefaultValue → String
  | string s => if isCall s then s else quote s
  | v => v.text

end DefaultValue

/-! ## Parts of lines -/

def indent : String := "  "

/-- Settings between brackets; without settings no brackets are written. -/
def bracketed (settings : List String) : String :=
  if settings.isEmpty then "" else " [" ++ String.intercalate ", " settings ++ "]"

/-- A setting that is written when a flag is set. -/
def flagText (text : String) (b : Bool) : Option String := if b then some text else none

/-- An opening or closing brace at the end of a line. -/
def openLine : String := " \x7b\n"

def closeLine : String := "\x7d\n"

/-! ## Statements -/

namespace EnumValue

def print (v : EnumValue) : String :=
  indent ++ wordOrString v.name ++
    bracketed (v.note.map fun note => "note: " ++ quote note).toList ++ "\n"

end EnumValue

namespace Enumeration

def print (e : Enumeration) : String :=
  "Enum " ++ e.name ++ openLine ++ String.join (e.values.map EnumValue.print) ++ closeLine

end Enumeration

namespace ColumnSettings

/-- The size of a type: precision and scale if both are there, else a length. -/
def sizeText (s : ColumnSettings) : String :=
  match s.precision, s.scale, s.length with
  | some p, some q, _ => "(" ++ toString p.toNat ++ ", " ++ toString q.toNat ++ ")"
  | _, _, some n => "(" ++ toString n.toNat ++ ")"
  | _, _, none => ""

/-- The settings in the order in which they are written. -/
def texts (s : ColumnSettings) : List String :=
  [flagText "pk" s.primaryKey,
   flagText "increment" s.autoIncrement,
   flagText "unique" s.unique,
   flagText "not null" s.notNull,
   s.default.map fun v => "default: " ++ v.literal,
   s.note.map fun note => "note: " ++ quote note].filterMap id

end ColumnSettings

namespace Column

def print (c : Column) : String :=
  indent ++ c.name ++ " " ++ c.displayType ++ c.settings.sizeText ++ bracketed c.settings.texts ++ "\n"

end Column

namespace Index

/-- One column alone, several in parentheses. -/
def columnsText (i : Index) : String :=
  match i.columns with
  | [c] => c
  | cs => "(" ++ String.intercalate ", " cs ++ ")"

def texts (i : Index) : List String :=
  [flagText "unique" i.unique,
   i.name.map fun name => "name: " ++ quote name,
   i.type.map fun type => "type: " ++ wordOrString type].filterMap id

def print (i : Index) : String := indent ++ indent ++ i.columnsText ++ bracketed i.texts ++ "\n"

end Index

namespace Table

/-- The indexes that have columns; the others cannot be written. -/
def printedIndexes (t : Table) : List Index := t.indexes.filter fun i => !i.columns.isEmpty

def indexBlock (t : Table) : String :=
  if t.printedIndexes.isEmpty then ""
  else
    indent ++ "indexes" ++ openLine ++ String.join (t.printedIndexes.map Index.print) ++ indent ++
      closeLine

def header (t : Table) : String :=
  let schema := match t.schema with
    | none => ""
    | some s => s ++ "."
  let shortName := match t.shortName with
    | none => ""
    | some a => " as " ++ a
  "Table " ++ schema ++ t.name ++ shortName

def noteLine (t : Table) : String :=
  match t.note with
  | none => ""
  | some note => indent ++ "Note: " ++ quote note ++ "\n"

def print (t : Table) : String :=
  t.header ++ openLine ++ String.join (t.columns.map Column.print) ++ t.indexBlock ++ t.noteLine ++
    closeLine

end Table

namespace Relation

def print (r : Relation) : String :=
  let name := match r.name with
    | none => ""
    | some n => " " ++ n
  "Ref" ++ name ++ ": " ++ r.source.path ++ " " ++ r.type.operator ++ " " ++ r.target.path ++ "\n"

end Relation

namespace TableGroup

def print (g : TableGroup) : String :=
  "TableGroup " ++ g.name ++ openLine ++ String.join (g.tables.map fun t => indent ++ t ++ "\n") ++
    closeLine

end TableGroup

/-! ## Schemas -/

namespace Schema

/-- The blocks of a schema, none of them empty. -/
def blocks (s : Schema) : List String :=
  s.enums.map Enumeration.print ++ s.tables.map Table.print ++
    (if s.relations.isEmpty then [] else [String.join (s.relations.map Relation.print)]) ++
    s.groups.map TableGroup.print

def print (s : Schema) : String := String.intercalate "\n" s.blocks

end Schema

end Erd

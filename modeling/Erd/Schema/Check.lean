import Erd.Schema.Json

/-!
# Checking schemas

`Schema.findings` lists what is wrong with a schema or odd about it: repeated table names first, then
the faults of each table, then the relations whose ends are missing, then the group members that are no
tables.  Only errors make a schema invalid; warnings do not.
-/

namespace Erd

inductive Severity where
  | error
  | warning
deriving DecidableEq, Repr

/-- The table or column that a finding is about. -/
structure Location where
  table : Option String := none
  column : Option String := none
deriving DecidableEq, Repr

inductive Finding where
  | duplicateTable (table : String)
  | duplicateColumn (table column : String)
  | noPrimaryKey (table : String)
  | undefinedEnum (table column type : String)
  | missingTable (endpoint : Endpoint)
  | missingColumn (endpoint : Endpoint)
  | missingMember (group table : String)
deriving DecidableEq, Repr

namespace Finding

def severity : Finding → Severity
  | duplicateTable _ | duplicateColumn _ _ | missingTable _ | missingColumn _ => .error
  | noPrimaryKey _ | undefinedEnum _ _ _ | missingMember _ _ => .warning

def isError (f : Finding) : Bool := f.severity = .error

def message : Finding → String
  | duplicateTable t => "Duplicate table name: " ++ t
  | duplicateColumn t c => "Duplicate column name \"" ++ c ++ "\" in table \"" ++ t ++ "\""
  | noPrimaryKey t => "Table \"" ++ t ++ "\" has no primary key"
  | undefinedEnum t c e =>
    "Column \"" ++ columnPath t c ++ "\" references undefined enum \"" ++ e ++ "\""
  | missingTable e => "Relation references non-existent table: " ++ e.table
  | missingColumn e => "Relation references non-existent column: " ++ e.path
  | missingMember g t => "Table group \"" ++ g ++ "\" references non-existent table: " ++ t

def location : Finding → Location
  | duplicateTable t | noPrimaryKey t | missingMember _ t => { table := some t }
  | duplicateColumn t c | undefinedEnum t c _ => { table := some t, column := some c }
  | missingTable e => { table := some e.table }
  | missingColumn e => { table := some e.table, column := some e.column }

end Finding

/-! ## Rules -/

/-- The names that come up again after `seen`, once for each time. -/
def repeatedAfter (seen : List String) : List String → List String
  | [] => []
  | x :: xs => if seen.contains x then x :: repeatedAfter seen xs else repeatedAfter (x :: seen) xs

/-- The names that stand behind an equal one. -/
def repeated (names : List String) : List String := repeatedAfter [] names

namespace Column

/-- Whether a column is typed as an enumeration that nothing declares. -/
def lacksEnum (enums : List String) (c : Column) : Bool :=
  c.type = .enum && c.settings.enumValues.isNone && !enums.contains c.displayType

end Column

namespace Table

/-- Whether some column is a primary key. -/
def hasPrimaryKey (t : Table) : Bool := t.columns.any (·.settings.primaryKey)

/-- The findings on one table. -/
def findings (enums : List String) (t : Table) : List Finding :=
  (repeated (t.columns.map (·.name))).map (.duplicateColumn t.name) ++
    (if t.hasPrimaryKey then [] else [.noPrimaryKey t.name]) ++
    (t.columns.filter (·.lacksEnum enums)).map fun c => .undefinedEnum t.name c.name c.displayType

end Table

namespace Schema

/-- The columns of all tables of a name, or none if there is no such table. -/
def columnsOf? (s : Schema) (table : String) : Option (List String) :=
  match s.tables.filter (·.name == table) with
  | [] => none
  | ts => some (ts.flatMap fun t => t.columns.map (·.name))

def endpointFindings (s : Schema) (e : Endpoint) : List Finding :=
  match s.columnsOf? e.table with
  | none => [.missingTable e]
  | some columns => if columns.contains e.column then [] else [.missingColumn e]

def relationFindings (s : Schema) (r : Relation) : List Finding :=
  s.endpointFindings r.source ++ s.endpointFindings r.target

def groupFindings (s : Schema) (g : TableGroup) : List Finding :=
  (g.tables.filter fun t => (s.columnsOf? t).isNone).map (.missingMember g.name)

def findings (s : Schema) : List Finding :=
  (repeated (s.tables.map (·.name))).map .duplicateTable ++
    s.tables.flatMap (Table.findings (s.enums.map (·.name))) ++
    s.relations.flatMap s.relationFindings ++
    s.groups.flatMap s.groupFindings

/-- A schema without errors. -/
def isValid (s : Schema) : Bool := !s.findings.any Finding.isError

end Schema

/-! ## Reports -/

/-- A finding as it is reported. -/
structure Diagnostic where
  severity : Severity
  message : String
  location : Option Location := none
deriving DecidableEq, Repr

structure Report where
  valid : Bool
  diagnostics : List Diagnostic
deriving DecidableEq, Repr

namespace Finding

def diagnostic (f : Finding) : Diagnostic := ⟨f.severity, f.message, some f.location⟩

end Finding

namespace Report

def errorCount (r : Report) : Nat := r.diagnostics.countP (·.severity = .error)

def warningCount (r : Report) : Nat := r.diagnostics.countP (·.severity = .warning)

end Report

namespace Schema

def check (s : Schema) : Report :=
  let findings := s.findings
  ⟨!findings.any Finding.isError, findings.map Finding.diagnostic⟩

end Schema

/-! ## Reports as JSON -/

namespace Severity

def name : Severity → String
  | error => "error"
  | warning => "warning"

def ofName? (s : String) : Option Severity := [error, warning].find? (·.name == s)

end Severity

namespace Location

def toJson (l : Location) : Json :=
  .record [Json.optionalField "table" .str l.table, Json.optionalField "column" .str l.column]

def ofJson? (x : Json) : Option Location := do
  let fs ← x.fields? ["table", "column"]
  return ⟨← Json.optional fs "table" Json.string?, ← Json.optional fs "column" Json.string?⟩

end Location

namespace Diagnostic

def toJson (d : Diagnostic) : Json :=
  .record
    [Json.field "type" (.str d.severity.name), Json.field "message" (.str d.message),
     Json.optionalField "location" Location.toJson d.location]

def ofJson? (x : Json) : Option Diagnostic := do
  let fs ← x.fields? ["type", "message", "location"]
  return {
    severity := ← Record.required fs "type" (Json.variant? Severity.ofName?)
    message := ← Record.required fs "message" Json.string?
    location := ← Json.optional fs "location" Location.ofJson? }

end Diagnostic

namespace Report

def toJson (r : Report) : Json :=
  .record
    [Json.field "valid" (.bool r.valid), Json.field "errors" (.ofList Diagnostic.toJson r.diagnostics)]

def ofJson? (x : Json) : Option Report := do
  let fs ← x.fields? ["valid", "errors"]
  return ⟨← Record.required fs "valid" Json.bool?,
    ← Record.required fs "errors" (Json.list? Diagnostic.ofJson?)⟩

end Report

end Erd

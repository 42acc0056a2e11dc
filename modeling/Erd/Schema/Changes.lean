import Erd.Schema.Json

/-!
# Changes between two versions of a schema

Tables and columns are matched by name and relations by key, each with the first of its name or key on
the other side.  The entries of the old version come first, in its order, then what only the new version
has.  Two columns differ if their display types, their primary keys or their `not null` flags do.
-/

namespace Erd

inductive Change where
  | added
  | removed
  | modified
  | unchanged
deriving DecidableEq, Repr

namespace Change

def name : Change → String
  | added => "added"
  | removed => "removed"
  | modified => "modified"
  | unchanged => "unchanged"

def ofName? (s : String) : Option Change := [added, removed, modified, unchanged].find? (·.name == s)

/-- The mark of a change in a change log. -/
def marker : Change → String
  | added => "+"
  | removed => "-"
  | modified => "~"
  | unchanged => " "

/-- Modified or unchanged. -/
def ofDifference (differs : Bool) : Change := if differs then modified else unchanged

end Change

structure ColumnChange where
  name : String
  change : Change
  oldType : Option String := none
  newType : Option String := none
deriving DecidableEq, Repr

structure TableChange where
  name : String
  change : Change
  columns : List ColumnChange
deriving DecidableEq, Repr

structure RelationChange where
  key : String
  change : Change
deriving DecidableEq, Repr

structure SchemaChanges where
  tables : List TableChange := []
  relations : List RelationChange := []
deriving DecidableEq, Repr

/-- How many tables were added, removed and modified. -/
structure ChangeSummary where
  added : Nat
  removed : Nat
  modified : Nat
deriving DecidableEq, Repr

/-! ## Columns and tables -/

namespace Column

def differs (old new : Column) : Bool :=
  old.displayType != new.displayType || old.settings.primaryKey != new.settings.primaryKey ||
    old.settings.notNull != new.settings.notNull

/-- What became of a column of the old table. -/
def changeIn (new : Table) (c : Column) : ColumnChange :=
  match new.column? c.name with
  | some d => ⟨c.name, .ofDifference (c.differs d), some c.displayType, some d.displayType⟩
  | none => ⟨c.name, .removed, some c.displayType, none⟩

def removed (c : Column) : ColumnChange := ⟨c.name, .removed, some c.displayType, none⟩

def added (c : Column) : ColumnChange := ⟨c.name, .added, none, some c.displayType⟩

end Column

namespace Table

def removed (t : Table) : TableChange := ⟨t.name, .removed, t.columns.map Column.removed⟩

def added (t : Table) : TableChange := ⟨t.name, .added, t.columns.map Column.added⟩

/-- The changes between two tables of one name. -/
def changes (old new : Table) : TableChange :=
  let columns :=
    old.columns.map (Column.changeIn new) ++
      (new.columns.filter fun c => (old.column? c.name).isNone).map Column.added
  ⟨new.name, .ofDifference (columns.any (·.change ≠ .unchanged)), columns⟩

/-- What became of a table of the old schema. -/
def changeIn (new : Schema) (t : Table) : TableChange :=
  match new.table? t.name with
  | some u => t.changes u
  | none => t.removed

end Table

/-! ## Relations -/

/-- The first relation of a key. -/
def relationOfKey? (rs : List Relation) (key : String) : Option Relation := rs.find? (·.key == key)

namespace Relation

/-- What became of an old relation. -/
def changeIn (new : List Relation) (r : Relation) : RelationChange :=
  match relationOfKey? new r.key with
  | some q => ⟨r.key, .ofDifference (q.type ≠ r.type)⟩
  | none => ⟨r.key, .removed⟩

def added (r : Relation) : RelationChange := ⟨r.key, .added⟩

end Relation

/-! ## Schemas -/

namespace Schema

/-- The changes from an old version to a new one. -/
def changes (old new : Schema) : SchemaChanges :=
  { tables :=
      old.tables.map (Table.changeIn new) ++
        (new.tables.filter fun t => (old.table? t.name).isNone).map Table.added
    relations :=
      old.relations.map (Relation.changeIn new.relations) ++
        (new.relations.filter fun r => (relationOfKey? old.relations r.key).isNone).map
          Relation.added }

end Schema

namespace SchemaChanges

def hasChanges (d : SchemaChanges) : Bool :=
  d.tables.any (·.change ≠ .unchanged) || d.relations.any (·.change ≠ .unchanged)

def summary (d : SchemaChanges) : ChangeSummary :=
  ⟨d.tables.countP (·.change = .added), d.tables.countP (·.change = .removed),
    d.tables.countP (·.change = .modified)⟩

end SchemaChanges

/-! ## Change logs -/

namespace ColumnChange

/-- The old and the new type if they differ, else the one there is. -/
def typesText (c : ColumnChange) : String :=
  match c.oldType, c.newType with
  | some old, some new => if old = new then new else old ++ " -> " ++ new
  | none, some new => new
  | some old, none => old
  | none, none => ""

def logLine (c : ColumnChange) : String :=
  "    " ++ c.change.marker ++ " " ++ c.name ++ " " ++ c.typesText ++ "\n"

end ColumnChange

namespace TableChange

/-- The line of a table, and of its columns if it is modified. -/
def logLines (t : TableChange) : String :=
  let columns := t.columns.filter (·.change ≠ .unchanged)
  t.change.marker ++ " " ++ t.name ++ "\n" ++
    (if t.change = .modified then String.join (columns.map ColumnChange.logLine) else "")

end TableChange

namespace SchemaChanges

/-- The changes for a human reader, without what is unchanged. -/
def log (d : SchemaChanges) : String :=
  if d.hasChanges then
    let tables := d.tables.filter (·.change ≠ .unchanged)
    let relations := d.relations.filter (·.change ≠ .unchanged)
    let summary := d.summary
    String.join (tables.map TableChange.logLines) ++
      (if relations.isEmpty then ""
        else "relations:\n" ++
          String.join (relations.map fun r => "  " ++ r.change.marker ++ " " ++ r.key ++ "\n")) ++
      toString summary.added ++ " added, " ++ toString summary.removed ++ " removed, " ++
      toString summary.modified ++ " modified\n"
  else "no changes\n"

end SchemaChanges

/-! ## Changes as JSON -/

namespace Change

def toJson (c : Change) : Json := .str c.name

def ofJson? : Json → Option Change := Json.variant? ofName?

end Change

namespace ColumnChange

def toJson (c : ColumnChange) : Json :=
  .record
    [Json.field "name" (.str c.name), Json.field "action" c.change.toJson,
     Json.optionalField "oldType" .str c.oldType, Json.optionalField "newType" .str c.newType]

def ofJson? (x : Json) : Option ColumnChange := do
  let fs ← x.fields? ["name", "action", "oldType", "newType"]
  return {
    name := ← Record.required fs "name" Json.string?
    change := ← Record.required fs "action" Change.ofJson?
    oldType := ← Json.optional fs "oldType" Json.string?
    newType := ← Json.optional fs "newType" Json.string? }

end ColumnChange

namespace TableChange

def toJson (t : TableChange) : Json :=
  .record
    [Json.field "name" (.str t.name), Json.field "action" t.change.toJson,
     Json.field "columns" (.ofList ColumnChange.toJson t.columns)]

def ofJson? (x : Json) : Option TableChange := do
  let fs ← x.fields? ["name", "action", "columns"]
  return {
    name := ← Record.required fs "name" Json.string?
    change := ← Record.required fs "action" Change.ofJson?
    columns := ← Record.required fs "columns" (Json.list? ColumnChange.ofJson?) }

end TableChange

namespace RelationChange

def toJson (r : RelationChange) : Json :=
  .record [Json.field "key" (.str r.key), Json.field "action" r.change.toJson]

def ofJson? (x : Json) : Option RelationChange := do
  let fs ← x.fields? ["key", "action"]
  return ⟨← Record.required fs "key" Json.string?, ← Record.required fs "action" Change.ofJson?⟩

end RelationChange

namespace SchemaChanges

def toJson (d : SchemaChanges) : Json :=
  .record
    [Json.field "tables" (.ofList TableChange.toJson d.tables),
     Json.field "relations" (.ofList RelationChange.toJson d.relations)]

def ofJson? (x : Json) : Option SchemaChanges := do
  let fs ← x.fields? ["tables", "relations"]
  return ⟨← Record.required fs "tables" (Json.list? TableChange.ofJson?),
    ← Record.required fs "relations" (Json.list? RelationChange.ofJson?)⟩

end SchemaChanges

namespace ChangeSummary

def toJson (s : ChangeSummary) : Json :=
  .record
    [Json.field "added" (.ofCount s.added), Json.field "removed" (.ofCount s.removed),
     Json.field "modified" (.ofCount s.modified)]

end ChangeSummary

end Erd

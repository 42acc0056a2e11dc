import Erd.Json.Record
import Erd.Schema.Basic

/-!
# Schemas as JSON

Every part of a schema has a writer `toJson` and a reader `ofJson?`.  Absent values and unset flags are
left out; a default of `null` is written as `null` and reads back as no default, since the reader
takes `null` for an absent value everywhere.
-/

namespace Erd

namespace ColumnType

def toJson (t : ColumnType) : Json := .str t.name

def ofJson? : Json → Option ColumnType := Json.variant? ofName?

end ColumnType

namespace DefaultValue

def toJson : DefaultValue → Json
  | boolean b => .bool b
  | number x => .ofNumber x
  | string s => .str s
  | null => .null

/-- Any value but an array or an object. -/
def ofJson? : Json → Option DefaultValue
  | .bool b => some (.boolean b)
  | .str s => some (.string s)
  | .null => some .null
  | x => x.number?.map .number

end DefaultValue

namespace ColumnSettings

def fieldNames : List String :=
  ["primaryKey", "unique", "notNull", "autoIncrement", "default", "note", "length", "precision",
   "scale", "enumValues"]

def sizeJson (n : UInt32) : Json := .ofCount n.toNat

def toJson (s : ColumnSettings) : Json :=
  .record
    [Json.flagField "primaryKey" s.primaryKey, Json.flagField "unique" s.unique,
     Json.flagField "notNull" s.notNull, Json.flagField "autoIncrement" s.autoIncrement,
     Json.optionalField "default" DefaultValue.toJson s.default, Json.optionalField "note" .str s.note,
     Json.optionalField "length" sizeJson s.length, Json.optionalField "precision" sizeJson s.precision,
     Json.optionalField "scale" sizeJson s.scale,
     Json.optionalField "enumValues" (.ofList .str) s.enumValues]

def ofJson? (x : Json) : Option ColumnSettings := do
  let fs ← x.fields? fieldNames
  return {
    primaryKey := ← Record.defaulted fs "primaryKey" false Json.bool?
    unique := ← Record.defaulted fs "unique" false Json.bool?
    notNull := ← Record.defaulted fs "notNull" false Json.bool?
    autoIncrement := ← Record.defaulted fs "autoIncrement" false Json.bool?
    default := ← Json.optional fs "default" DefaultValue.ofJson?
    note := ← Json.optional fs "note" Json.string?
    length := ← Json.optional fs "length" Json.uint32?
    precision := ← Json.optional fs "precision" Json.uint32?
    scale := ← Json.optional fs "scale" Json.uint32?
    enumValues := ← Json.optional fs "enumValues" (Json.list? Json.string?) }

end ColumnSettings

namespace Column

def toJson (c : Column) : Json :=
  .record
    [Json.field "name" (.str c.name), Json.field "type" c.type.toJson,
     Json.optionalField "rawType" .str c.rawType, Json.field "settings" c.settings.toJson]

def ofJson? (x : Json) : Option Column := do
  let fs ← x.fields? ["name", "type", "rawType", "settings"]
  return {
    name := ← Record.required fs "name" Json.string?
    type := ← Record.required fs "type" ColumnType.ofJson?
    rawType := ← Json.optional fs "rawType" Json.string?
    settings := ← Record.defaulted fs "settings" {} ColumnSettings.ofJson? }

end Column

namespace Index

def toJson (i : Index) : Json :=
  .record
    [Json.optionalField "name" .str i.name, Json.field "columns" (.ofList .str i.columns),
     Json.flagField "unique" i.unique, Json.optionalField "type" .str i.type]

def ofJson? (x : Json) : Option Index := do
  let fs ← x.fields? ["name", "columns", "unique", "type"]
  return {
    name := ← Json.optional fs "name" Json.string?
    columns := ← Record.required fs "columns" (Json.list? Json.string?)
    unique := ← Record.defaulted fs "unique" false Json.bool?
    type := ← Json.optional fs "type" Json.string? }

end Index

namespace Table

def toJson (t : Table) : Json :=
  .record
    [Json.field "name" (.str t.name), Json.optionalField "schema" .str t.schema,
     Json.optionalField "alias" .str t.shortName, Json.field "columns" (.ofList Column.toJson t.columns),
     Json.field "indexes" (.ofList Index.toJson t.indexes), Json.optionalField "note" .str t.note]

def ofJson? (x : Json) : Option Table := do
  let fs ← x.fields? ["name", "schema", "alias", "columns", "indexes", "note"]
  return {
    name := ← Record.required fs "name" Json.string?
    schema := ← Json.optional fs "schema" Json.string?
    shortName := ← Json.optional fs "alias" Json.string?
    columns := ← Record.required fs "columns" (Json.list? Column.ofJson?)
    indexes := ← Record.defaulted fs "indexes" [] (Json.list? Index.ofJson?)
    note := ← Json.optional fs "note" Json.string? }

end Table

namespace RelationType

def toJson (t : RelationType) : Json := .str t.name

def ofJson? : Json → Option RelationType := Json.variant? ofName?

end RelationType

namespace Endpoint

def toJson (e : Endpoint) : Json :=
  .record [Json.field "table" (.str e.table), Json.field "column" (.str e.column)]

def ofJson? (x : Json) : Option Endpoint := do
  let fs ← x.fields? ["table", "column"]
  return ⟨← Record.required fs "table" Json.string?, ← Record.required fs "column" Json.string?⟩

end Endpoint

namespace Relation

def toJson (r : Relation) : Json :=
  .record
    [Json.optionalField "name" .str r.name, Json.field "from" r.source.toJson,
     Json.field "to" r.target.toJson, Json.field "type" r.type.toJson]

def ofJson? (x : Json) : Option Relation := do
  let fs ← x.fields? ["name", "from", "to", "type"]
  return {
    name := ← Json.optional fs "name" Json.string?
    source := ← Record.required fs "from" Endpoint.ofJson?
    target := ← Record.required fs "to" Endpoint.ofJson?
    type := ← Record.required fs "type" RelationType.ofJson? }

end Relation

namespace EnumValue

def toJson (v : EnumValue) : Json :=
  .record [Json.field "name" (.str v.name), Json.optionalField "note" .str v.note]

def ofJson? (x : Json) : Option EnumValue := do
  let fs ← x.fields? ["name", "note"]
  return ⟨← Record.required fs "name" Json.string?, ← Json.optional fs "note" Json.string?⟩

end EnumValue

namespace Enumeration

def toJson (e : Enumeration) : Json :=
  .record [Json.field "name" (.str e.name), Json.field "values" (.ofList EnumValue.toJson e.values)]

def ofJson? (x : Json) : Option Enumeration := do
  let fs ← x.fields? ["name", "values"]
  return ⟨← Record.required fs "name" Json.string?,
    ← Record.required fs "values" (Json.list? EnumValue.ofJson?)⟩

end Enumeration

namespace TableGroup

def toJson (g : TableGroup) : Json :=
  .record [Json.field "name" (.str g.name), Json.field "tables" (.ofList .str g.tables)]

def ofJson? (x : Json) : Option TableGroup := do
  let fs ← x.fields? ["name", "tables"]
  return ⟨← Record.required fs "name" Json.string?,
    ← Record.required fs "tables" (Json.list? Json.string?)⟩

end TableGroup

namespace Schema

def toJson (s : Schema) : Json :=
  .record
    [Json.field "tables" (.ofList Table.toJson s.tables),
     Json.field "relations" (.ofList Relation.toJson s.relations),
     Json.field "enums" (.ofList Enumeration.toJson s.enums),
     Json.field "tableGroups" (.ofList TableGroup.toJson s.groups),
     Json.optionalField "name" .str s.name, Json.optionalField "note" .str s.note]

def ofJson? (x : Json) : Option Schema := do
  let fs ← x.fields? ["tables", "relations", "enums", "tableGroups", "name", "note"]
  return {
    tables := ← Record.required fs "tables" (Json.list? Table.ofJson?)
    relations := ← Record.required fs "relations" (Json.list? Relation.ofJson?)
    enums := ← Record.required fs "enums" (Json.list? Enumeration.ofJson?)
    groups := ← Record.required fs "tableGroups" (Json.list? TableGroup.ofJson?)
    name := ← Json.optional fs "name" Json.string?
    note := ← Json.optional fs "note" Json.string? }

end Schema

end Erd

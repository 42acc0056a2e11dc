import Erd.Decimal.Notation
import Erd.Schema.ColumnType

/-!
# Schemas

A schema holds tables with their columns and indexes, relations between columns, enumerations and
groups of tables.  Names are plain texts and need not refer to anything: whether they do is a matter
of the checks in `Erd.Schema.Check`.

`==` on schemas compares numeric defaults by value.
-/

namespace Erd

/-! ## Columns -/

/-- The value a column takes when none is given. -/
inductive DefaultValue where
  | boolean (b : Bool)
  | number (x : Binary64)
  | string (s : String)
  | null
deriving DecidableEq, BEq, Repr

namespace DefaultValue

/-- The text of a value, strings without quotes. -/
def text : DefaultValue → String
  | boolean b => if b then "true" else "false"
  | number x => x.toSource
  | string s => s
  | null => "null"

end DefaultValue

structure ColumnSettings where
  primaryKey : Bool := false
  unique : Bool := false
  notNull : Bool := false
  autoIncrement : Bool := false
  default : Option DefaultValue := none
  note : Option String := none
  length : Option UInt32 := none
  precision : Option UInt32 := none
  scale : Option UInt32 := none
  enumValues : Option (List String) := none
deriving DecidableEq, BEq, Repr

structure Column where
  name : String
  type : ColumnType
  /-- The type as the source wrote it. -/
  rawType : Option String := none
  settings : ColumnSettings := {}
deriving DecidableEq, BEq, Repr

namespace Column

/-- The type as written, or else the name of the logical type. -/
def displayType (c : Column) : String := c.rawType.getD c.type.name

end Column

/-! ## Tables -/

structure Index where
  name : Option String := none
  columns : List String
  unique : Bool := false
  type : Option String := none
deriving DecidableEq, BEq, Repr

structure Table where
  name : String
  schema : Option String := none
  shortName : Option String := none
  columns : List Column := []
  indexes : List Index := []
  note : Option String := none
deriving DecidableEq, BEq, Repr

namespace Table

/-- The first column of a name. -/
def column? (t : Table) (name : String) : Option Column := t.columns.find? (·.name == name)

end Table

/-! ## Relations -/

inductive RelationType where
  | oneToOne
  | oneToMany
  | manyToOne
  | manyToMany
deriving DecidableEq, Repr, Inhabited

namespace RelationType

def all : List RelationType := [oneToOne, oneToMany, manyToOne, manyToMany]

def name : RelationType → String
  | oneToOne => "one-to-one"
  | oneToMany => "one-to-many"
  | manyToOne => "many-to-one"
  | manyToMany => "many-to-many"

def ofName? (s : String) : Option RelationType := all.find? (·.name == s)

/-- The mark between the two sides of a relation in a source. -/
def operator : RelationType → String
  | oneToOne => "-"
  | oneToMany => "<"
  | manyToOne => ">"
  | manyToMany => "<>"

end RelationType

/-- One side of a relation. -/
structure Endpoint where
  table : String
  column : String
deriving DecidableEq, Repr, Inhabited

/-- The name of a column within its table, with a dot between them. -/
def columnPath (table column : String) : String := table ++ "." ++ column

namespace Endpoint

def path (e : Endpoint) : String := columnPath e.table e.column

end Endpoint

structure Relation where
  name : Option String := none
  source : Endpoint
  target : Endpoint
  type : RelationType
deriving DecidableEq, Repr

namespace Relation

/-- What identifies a relation that has no name. -/
def key (r : Relation) : String := r.source.path ++ "->" ++ r.target.path

end Relation

/-! ## Enumerations and groups -/

structure EnumValue where
  name : String
  note : Option String := none
deriving DecidableEq, Repr

structure Enumeration where
  name : String
  values : List EnumValue
deriving DecidableEq, Repr

namespace Enumeration

def valueNames (e : Enumeration) : List String := e.values.map (·.name)

end Enumeration

/-- Table names under a common name. -/
structure TableGroup where
  name : String
  tables : List String
deriving DecidableEq, Repr

/-! ## Schemas -/

structure Schema where
  tables : List Table := []
  relations : List Relation := []
  enums : List Enumeration := []
  groups : List TableGroup := []
  name : Option String := none
  note : Option String := none
deriving DecidableEq, BEq, Repr

namespace Schema

/-- The first table of a name. -/
def table? (s : Schema) (name : String) : Option Table := s.tables.find? (·.name == name)

/-- The first enumeration of a name. -/
def enum? (s : Schema) (name : String) : Option Enumeration := s.enums.find? (·.name == name)

end Schema

end Erd

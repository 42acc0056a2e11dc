import Erd.Text.Ascii

/-!
# Logical column types

A type name of a source denotes a logical type, whatever its letter case; a name that is no alias of
one denotes the unknown type.
-/

namespace Erd

inductive ColumnType where
  | int
  | bigint
  | smallint
  | float
  | double
  | decimal
  | varchar
  | char
  | text
  | boolean
  | date
  | datetime
  | timestamp
  | time
  | uuid
  | json
  | blob
  | enum
  | unknown
deriving DecidableEq, Repr, Inhabited

namespace ColumnType

def all : List ColumnType :=
  [int, bigint, smallint, float, double, decimal, varchar, char, text, boolean, date, datetime,
   timestamp, time, uuid, json, blob, enum, unknown]

/-- The name of a type, also its spelling in JSON. -/
def name : ColumnType → String
  | int => "int"
  | bigint => "bigint"
  | smallint => "smallint"
  | float => "float"
  | double => "double"
  | decimal => "decimal"
  | varchar => "varchar"
  | char => "char"
  | text => "text"
  | boolean => "boolean"
  | date => "date"
  | datetime => "datetime"
  | timestamp => "timestamp"
  | time => "time"
  | uuid => "uuid"
  | json => "json"
  | blob => "blob"
  | enum => "enum"
  | unknown => "unknown"

/-- The type of a name in exact spelling. -/
def ofName? (s : String) : Option ColumnType := all.find? (·.name == s)

/-- The lower-case names that a source may use for a type. -/
def typeNames : ColumnType → List String
  | int => ["int", "integer", "int4", "mediumint", "serial"]
  | bigint => ["bigint", "int8", "bigserial"]
  | smallint => ["smallint", "int2", "tinyint", "smallserial"]
  | float => ["float", "float4", "real"]
  | double => ["double", "float8"]
  | decimal => ["decimal", "numeric", "money"]
  | varchar => ["varchar", "nvarchar", "string"]
  | char => ["char", "character", "nchar"]
  | text => ["text", "tinytext", "mediumtext", "longtext"]
  | boolean => ["boolean", "bool", "bit"]
  | date => ["date"]
  | datetime => ["datetime", "datetime2"]
  | timestamp => ["timestamp", "timestamptz"]
  | time => ["time", "timetz"]
  | uuid => ["uuid", "guid", "uniqueidentifier"]
  | json => ["json", "jsonb"]
  | blob => ["blob", "binary", "varbinary", "bytea", "longblob"]
  | enum => ["enum"]
  | unknown => []

/-- The type that a name in a source denotes. -/
def ofTypeName (s : String) : ColumnType :=
  let lower := asciiLower s
  (all.find? (·.typeNames.contains lower)).getD unknown

end ColumnType

end Erd

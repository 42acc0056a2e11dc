import Erd.Decimal.Binary64
import Erd.Record

/-!
# TOML values and the records in them

A value is given for a record by the entries of a table, or by an array that lists the fields in order and may
go on behind them.  Unknown entries are passed over.  A member of an enumeration is a string, or a table whose
only key names the member and holds nothing.
-/

namespace Erd.Toml

inductive Value where
  | str (s : String)
  /-- An integer of 64 bits. -/
  | int (n : Int)
  | float (x : Binary64)
  | bool (b : Bool)
  /-- A date or a time, held as its text. -/
  | date (text : String)
  | array (items : List Value)
  | table (entries : List (String × Value))
deriving Inhabited

namespace Value

/-- The fields of a record of the given names; a date has none of them. -/
def fields? (names : List String) : Value → Option (Record.Fields Value)
  | .table es => some es
  | .array xs => some (names.zip xs)
  | .date _ => some []
  | _ => none

def string? : Value → Option String
  | .str s => some s
  | _ => none

def number? : Value → Option Binary64
  | .int n => some (.ofInt n)
  | .float x => some x
  | _ => none

/-- A table or an array without anything in it. -/
def isEmpty : Value → Bool
  | .table [] => true
  | .array [] => true
  | _ => false

/-- A member of an enumeration, by name. -/
def variant? (ofName? : String → Option α) : Value → Option α
  | .str s => ofName? s
  | .table [(s, x)] => if x.isEmpty then ofName? s else none
  | _ => none

end Value

end Erd.Toml

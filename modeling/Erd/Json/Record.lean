import Erd.Json.Value
import Erd.Record

/-!
# Records as JSON

A record is written as an object, and read from an object or from an array that lists its fields in
order.  Unknown members are passed over.  A field may also be *optional*: absent or `null` stand for no
value.  A member of an enumeration is written by its name, and also read from an object that maps the name
to `null`.
-/

namespace Erd

namespace Json

/-! ## Reading -/

abbrev Fields := Record.Fields Json

/-- The fields in an object, or in an array no longer than the list of field names. -/
def fields? (names : List String) : Json → Option Fields
  | .obj ms => some ms
  | .arr xs => if xs.length ≤ names.length then some (names.zip xs) else none
  | _ => none

def optional (fs : Fields) (name : String) (read : Json → Option α) : Option (Option α) :=
  match fs.lookup name with
  | none => some none
  | some .null => some none
  | some x => (read x).map some

def string? : Json → Option String
  | .str s => some s
  | _ => none

def bool? : Json → Option Bool
  | .bool b => some b
  | _ => none

/-- A natural number below a limit, written as an integer. -/
def below? (limit : Nat) : Json → Option Nat
  | .int n => if 0 ≤ n ∧ n < limit then some n.toNat else none
  | _ => none

def uint32? (x : Json) : Option UInt32 := (x.below? UInt32.size).map UInt32.ofNat

def count? (x : Json) : Option Nat := x.below? UInt64.size

/-- A number, if it is finite. -/
def finite? (x : Binary64) : Option Binary64 := if x.isFinite then some x else none

/-- A finite number. -/
def number? : Json → Option Binary64
  | .int n => finite? (.ofInt n)
  | .float x => finite? x
  | _ => none

def list? (read : Json → Option α) : Json → Option (List α)
  | .arr xs => xs.mapM read
  | _ => none

/-- A member of an enumeration, by name. -/
def variant? (ofName? : String → Option α) : Json → Option α
  | .str s => ofName? s
  | .obj [(s, .null)] => ofName? s
  | _ => none

/-! ## Writing -/

/-- An object of the fields that are present. -/
def record (fs : List (Option (String × Json))) : Json := .obj (fs.filterMap id)

def field (name : String) (x : Json) : Option (String × Json) := some (name, x)

/-- A field that is left out when there is no value. -/
def optionalField (name : String) (write : α → Json) (a : Option α) : Option (String × Json) :=
  a.map fun a => (name, write a)

/-- A flag that is left out when it is not set. -/
def flagField (name : String) (b : Bool) : Option (String × Json) :=
  if b then some (name, .bool true) else none

/-- A finite number, or `null`: JSON has no other numbers. -/
def ofNumber (x : Binary64) : Json := if x.isFinite then .float x else .null

def ofList (write : α → Json) (xs : List α) : Json := .arr (xs.map write)

def ofCount (n : Nat) : Json := .int n

end Json

end Erd

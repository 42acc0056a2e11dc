/-!
# Records in documents

A document gives a record as its fields by name, or as a list of them in order.  A field is *required*, or
has a *default* that stands for it when it is absent.
-/

namespace Erd.Record

/-- The fields of a record by name. -/
abbrev Fields (Value : Type) := List (String × Value)

variable {Value α : Type}

def required (fs : Fields Value) (name : String) (read : Value → Option α) : Option α :=
  match fs.lookup name with
  | none => none
  | some x => read x

def defaulted (fs : Fields Value) (name : String) (default : α) (read : Value → Option α) : Option α :=
  match fs.lookup name with
  | none => some default
  | some x => read x

end Erd.Record

import Erd.Toml.Value

/-!
# Tables of a TOML document

A document grows by key-value pairs and by headers, each under a dotted path of names.  A table comes into
being under a header of its own, on the way of a longer header, or on the way of a dotted key; what may be
added to it later depends on which it was.  `none` stands for a name that is already taken.
-/

namespace Erd.Toml

/-- How a table came into being. -/
inductive TableOrigin where
  | header
  /-- On the way of a longer header. -/
  | implied
  /-- On the way of a dotted key. -/
  | dotted
deriving DecidableEq, Repr

inductive Entry where
  | value (x : Value)
  | table (origin : TableOrigin) (entries : List (String × Entry))
  /-- The tables of a repeated header, the last one first. -/
  | tables (last : List (String × Entry)) (before : List (List (String × Entry)))

abbrev Entries := List (String × Entry)

namespace Entries

/-- The entries with the one of a name replaced, or a new one behind the others. -/
def update (name : String) (f : Option Entry → Option Entry) : Entries → Option Entries
  | [] => (f none).map fun e => [(name, e)]
  | (k, e) :: rest =>
    if k == name then (f (some e)).map fun e => (k, e) :: rest
    else (update name f rest).map fun rest => (k, e) :: rest

/-- A new entry. -/
def add (name : String) (e : Entry) (es : Entries) : Option Entries :=
  es.update name fun
    | none => some e
    | some _ => none

/-- Changes the table at the end of a path of header names, making tables on the way. -/
def underHeader (f : Entries → Option Entries) : List String → Entries → Option Entries
  | [], es => f es
  | name :: path, es =>
    es.update name fun
      | none => (underHeader f path []).map (.table .implied)
      | some (.table origin inner) => (underHeader f path inner).map (.table origin)
      | some (.tables last before) => (underHeader f path last).map fun last => .tables last before
      | some (.value _) => none

/-- Opens the table of a header. -/
def openTable (path : List String) (name : String) (es : Entries) : Option Entries :=
  es.underHeader (fun es => es.update name fun
    | none => some (.table .header [])
    | some (.table .implied inner) => some (.table .header inner)
    | some _ => none) path

/-- Opens one more table of a repeated header. -/
def openNext (path : List String) (name : String) (es : Entries) : Option Entries :=
  es.underHeader (fun es => es.update name fun
    | none => some (.tables [] [])
    | some (.tables last before) => some (.tables [] (last :: before))
    | some _ => none) path

/-- Adds an entry at the end of a path of names before dots.  The last table on the way must be one that
dotted keys made, and no table of a header of its own may be on the way. -/
def addDotted (name : String) (e : Entry) : List String → Entries → Option Entries
  | [], es => es.add name e
  | [k], es =>
    es.update k fun
      | none => (Entries.add name e []).map (.table .dotted)
      | some (.table .dotted inner) => (Entries.add name e inner).map (.table .dotted)
      | some _ => none
  | k :: path, es =>
    es.update k fun
      | none => (addDotted name e path []).map (.table .dotted)
      | some (.table .header _) => none
      | some (.table origin inner) => (addDotted name e path inner).map (.table origin)
      | some (.tables last before) => (addDotted name e path last).map fun last => .tables last before
      | some (.value _) => none

end Entries

mutual

/-- The value that an entry holds, whatever way it came into being. -/
def Entry.toValue : Entry → Value
  | .value x => x
  | .table _ es => .table (entryValues es)
  | .tables last before => .array ((.table (entryValues last) :: tableValues before).reverse)

def entryValues : List (String × Entry) → List (String × Value)
  | [] => []
  | (k, e) :: rest => (k, e.toValue) :: entryValues rest

def tableValues : List (List (String × Entry)) → List Value
  | [] => []
  | es :: rest => .table (entryValues es) :: tableValues rest

end

end Erd.Toml

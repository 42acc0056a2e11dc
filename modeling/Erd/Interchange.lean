import Erd.Diagram.Json
import Erd.Diagram.OfSchema
import Erd.Grammar.Print
import Erd.Json.Reader
import Erd.Json.Writer
import Erd.Layout.Registry
import Erd.Schema.Changes
import Erd.Schema.Check

/-!
# Operations on JSON texts

What editors and other programs call: each operation takes its operands as JSON texts, and gives its result
as one.  It gives nothing if an operand does not decode.  Diagrams are built and framed with the standard
metrics.

An operand that was written from a schema or diagram keeps what its text can hold: a default value that is
`null`, or a number beyond the finite ones, comes back as no default, and any other number as its digits read.
-/

namespace Erd.Interchange

/-- What a text decodes to. -/
def decode? (ofJson? : Json → Option α) (text : String) : Option α := (Json.parse? text).bind ofJson?

/-- The schema that a source writes. -/
def parse (source : String) : Except SyntaxError String := (Schema.parse source).map (·.toJson.compact)

/-- The source of a schema. -/
def print? (schema : String) : Option String := (decode? Schema.ofJson? schema).map Schema.print

def check? (schema : String) : Option String :=
  (decode? Schema.ofJson? schema).map fun s => s.check.toJson.compact

def changes? (old new : String) : Option String :=
  match decode? Schema.ofJson? old with
  | none => none
  | some s => (decode? Schema.ofJson? new).map fun t => (s.changes t).toJson.compact

/-- The diagram of a schema. -/
def build? (schema : String) : Option String :=
  (decode? Schema.ofJson? schema).map fun s =>
    (s.toDiagram (Metrics.standard : Metrics Float)).toJson.compact

/-- A diagram laid out by the engine of a name, with the standard options if none are given. -/
def layout? (diagram : String) (engine options : Option String) : Option String :=
  match (decode? Diagram.ofJson? diagram : Option (Diagram Float)) with
  | none => none
  | some d =>
    (options.elim (some .standard) (decode? LayoutOptions.ofJson?)).map fun o =>
      (d.layout engine o).toJson.compact

/-- A diagram with its bounds, with the standard padding if none is given. -/
def bound? (diagram : String) (padding : Option Float) : Option String :=
  (decode? Diagram.ofJson? diagram).map fun d =>
    (d.bound .standard (padding.getD Diagram.standardPadding)).toJson.compact

/-- The names of the built-in engines. -/
def engineNames : String := (Json.ofList .str (Registry.standard : Registry Float).names).compact

end Erd.Interchange

import Erd.Diagram.Json
import Erd.Layout.Registry
import Erd.Toml.Reader

/-!
# Settings

The settings of a run are the sizes of boxes, the layout options and the name of the engine.  All of them
may be left out.  They are read from TOML, where numbers may be infinite, or from JSON.
-/

namespace Erd

structure Settings (α : Type) where
  metrics : Metrics α
  layout : LayoutOptions α
  engine : String
deriving DecidableEq, Repr

namespace Settings

variable {α : Type} [Scalar α]

def standard : Settings α := ⟨.standard, .standard, defaultEngineName⟩

def fieldNames : List String := ["metrics", "layout", "engine"]

def ofFields? {Value : Type} (metrics : Value → Option (Metrics α))
    (layout : Value → Option (LayoutOptions α)) (engine : Value → Option String)
    (fs : Record.Fields Value) : Option (Settings α) := do
  let base : Settings α := standard
  return {
    metrics := ← Record.defaulted fs "metrics" base.metrics metrics
    layout := ← Record.defaulted fs "layout" base.layout layout
    engine := ← Record.defaulted fs "engine" base.engine engine }

variable [Coordinate α]

/-! ## JSON -/

def toJson (s : Settings α) : Json :=
  .record
    [Json.field "metrics" s.metrics.toJson, Json.field "layout" s.layout.toJson,
     Json.field "engine" (.str s.engine)]

def ofJson? (x : Json) : Option (Settings α) :=
  (x.fields? fieldNames).bind (ofFields? Metrics.ofJson? LayoutOptions.ofJson? Json.string?)

/-! ## TOML -/

def coordinateOfToml? (x : Toml.Value) : Option α := x.number?.map Coordinate.ofBinary

def metricsOfToml? (x : Toml.Value) : Option (Metrics α) :=
  (x.fields? Metrics.fieldNames).bind (Metrics.ofFields? coordinateOfToml?)

def optionsOfToml? (x : Toml.Value) : Option (LayoutOptions α) :=
  (x.fields? LayoutOptions.fieldNames).bind
    (LayoutOptions.ofFields? (Toml.Value.variant? Direction.ofName?) coordinateOfToml?)

def ofToml? (x : Toml.Value) : Option (Settings α) :=
  (x.fields? fieldNames).bind (ofFields? metricsOfToml? optionsOfToml? Toml.Value.string?)

/-- The settings in a TOML document. -/
def parse? (text : String) : Option (Settings α) := (Toml.parse? text).bind ofToml?

end Settings

end Erd

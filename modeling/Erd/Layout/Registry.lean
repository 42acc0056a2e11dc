import Erd.Layout.Grid
import Erd.Layout.Layered

/-!
# Layout engines by name

A registry is a list of engines with different names, in the order in which their names were first
registered.  Looking up an engine never fails: an unknown name stands for the default engine, and the
layered layout stands in for that if it is not registered either.
-/

namespace Erd

variable {α : Type} [Scalar α]

/-- A layout with a name. -/
structure Engine (α : Type) where
  name : String
  arrange : LayoutOptions α → Diagram α → Diagram α

def defaultEngineName : String := "dagre"

namespace Engine

def layered : Engine α := ⟨defaultEngineName, Diagram.layered⟩

def grid : Engine α := ⟨"grid", Diagram.grid⟩

/-- An engine that puts the boxes one by one on the diagonal and frames nothing. -/
def diagonal (name : String) (step : α) : Engine α where
  name := name
  arrange _ d :=
    { d.clearRoutes with
      nodes := d.nodes.zipIdx.map fun (n, i) =>
        n.moveTo ⟨Scalar.ofNat i * step, Scalar.ofNat i * step⟩ }

end Engine

structure Registry (α : Type) where
  engines : List (Engine α)

namespace Registry

def empty : Registry α := ⟨[]⟩

/-- The engine put in the place of the one of its name, or behind all others. -/
def put (e : Engine α) : List (Engine α) → List (Engine α)
  | [] => [e]
  | f :: rest => if f.name == e.name then e :: rest else f :: put e rest

def register (r : Registry α) (e : Engine α) : Registry α := ⟨put e r.engines⟩

def standard : Registry α := (empty.register .layered).register .grid

def names (r : Registry α) : List String := r.engines.map (·.name)

def get? (r : Registry α) (name : String) : Option (Engine α) :=
  r.engines.find? (·.name == name)

/-- Whether a name is asked for that no engine has. -/
def isUnknown (r : Registry α) (name : Option String) : Bool :=
  match name with
  | none => false
  | some n => (r.get? n).isNone

/-- The engine of a name, or else the default engine. -/
def resolve (r : Registry α) (name : Option String) : Engine α :=
  match name.bind r.get? with
  | some e => e
  | none => (r.get? defaultEngineName).getD .layered

/-- The diagram as the engine of a name lays it out, framed with the given metrics. -/
def layout (r : Registry α) (name : Option String) (options : LayoutOptions α) (m : Metrics α)
    (d : Diagram α) : Diagram α :=
  let o := options.sanitized
  ((r.resolve name).arrange o d).fit m o.padding

end Registry

namespace Diagram

/-- The layout with a built-in engine. -/
def layout (name : Option String) (options : LayoutOptions α) (d : Diagram α) : Diagram α :=
  Registry.standard.layout name options .standard d

end Diagram

end Erd

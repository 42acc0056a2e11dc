import Erd.Grammar.Print
import Erd.Diagram.OfSchema
import Erd.Layout.Registry
import Erd.Schema.Changes
import Erd.Schema.Check

/-!
# Workspaces

A workspace holds a schema, the version before it and a diagram.  Taking up a new schema keeps the one
there was as the previous version; the diagram changes only when it is built, laid out or edited.
-/

namespace Erd

structure Workspace (α : Type) where
  schema : Schema := {}
  previous : Schema := {}
  diagram : Diagram α := {}

namespace Workspace

variable {α : Type}

def takeUp (w : Workspace α) (s : Schema) : Workspace α := { w with schema := s, previous := w.schema }

/-- Takes up the schema that a source writes. -/
def parse (w : Workspace α) (source : String) : Except SyntaxError (Workspace α) :=
  (Schema.parse source).map w.takeUp

def changes (w : Workspace α) : SchemaChanges := w.previous.changes w.schema

/-- Changes the diagram. -/
def redraw (w : Workspace α) (f : Diagram α → Diagram α) : Workspace α :=
  { w with diagram := f w.diagram }

/-- Builds the diagram of the schema. -/
def build [Scalar α] (w : Workspace α) (m : Metrics α) : Workspace α :=
  w.redraw fun _ => w.schema.toDiagram m

end Workspace

namespace Diagram

variable {α : Type}

/-- The first box of an id moved to a place. -/
def moveFirst (id : String) (p : Point α) : List (TableBox α) → List (TableBox α)
  | [] => []
  | n :: rest => if n.id == id then n.moveTo p :: rest else n :: moveFirst id p rest

def moveNode (id : String) (p : Point α) (d : Diagram α) : Diagram α :=
  { d with nodes := moveFirst id p d.nodes }

end Diagram

end Erd

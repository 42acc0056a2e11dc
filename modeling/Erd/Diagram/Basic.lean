import Erd.Geometry.Rect
import Erd.Schema.Basic

/-!
# Diagrams

A diagram draws a schema: a box for each table, an edge for each relation, a frame for each group and
notes anywhere.  Edges and groups name boxes by id and need not find any; of several boxes with one id the
first counts.
-/

namespace Erd

/-- The row of a column within its table's box. -/
structure ColumnRow (α : Type) where
  id : String
  name : String
  type : ColumnType
  rawType : Option String := none
  settings : ColumnSettings := {}
  isPrimaryKey : Bool
  isForeignKey : Bool
  offsetY : α
deriving DecidableEq, Repr

structure TableBox (α : Type) where
  id : String
  name : String
  schema : Option String := none
  shortName : Option String := none
  note : Option String := none
  position : Point α
  size : Size α
  columns : List (ColumnRow α)
  group : Option String := none
  collapsed : Bool := false
deriving DecidableEq, Repr

structure EdgeEnd where
  node : String
  column : String
deriving DecidableEq, Repr

structure Edge (α : Type) where
  id : String
  source : EdgeEnd
  target : EdgeEnd
  type : RelationType
  /-- The way of the line, empty before a layout. -/
  points : List (Point α) := []
deriving DecidableEq, Repr

structure GroupFrame (α : Type) where
  id : String
  name : String
  members : List String
  bounds : Option (Rect α) := none
  collapsed : Bool := false
  color : Option String := none
deriving DecidableEq, Repr

structure StickyNote (α : Type) where
  id : String
  text : String
  position : Point α
  size : Size α
  color : Option String := none
deriving DecidableEq, Repr

structure Diagram (α : Type) where
  nodes : List (TableBox α) := []
  edges : List (Edge α) := []
  groups : List (GroupFrame α) := []
  notes : List (StickyNote α) := []
  bounds : Option (Rect α) := none
deriving DecidableEq, Repr

variable {α : Type}

namespace TableBox

def rect (n : TableBox α) : Rect α := ⟨n.position.x, n.position.y, n.size.width, n.size.height⟩

def moveTo (n : TableBox α) (p : Point α) : TableBox α := { n with position := p }

variable [Scalar α]

def center (n : TableBox α) : Point α :=
  ⟨n.position.x + Scalar.half n.size.width, n.position.y + Scalar.half n.size.height⟩

def shift (v : Point α) (n : TableBox α) : TableBox α := n.moveTo (n.position.shift v)

end TableBox

namespace Edge

def route (e : Edge α) (points : List (Point α)) : Edge α := { e with points }

def shift [Scalar α] (v : Point α) (e : Edge α) : Edge α := e.route (e.points.map (·.shift v))

end Edge

namespace Diagram

/-- The first box of an id. -/
def node? (d : Diagram α) (id : String) : Option (TableBox α) := d.nodes.find? (·.id == id)

/-- All edges without their ways. -/
def clearRoutes (d : Diagram α) : Diagram α :=
  { d with edges := d.edges.map (·.route []) }

/-- Boxes and edges moved by one vector. -/
def shift [Scalar α] (v : Point α) (d : Diagram α) : Diagram α :=
  { d with nodes := d.nodes.map (·.shift v), edges := d.edges.map (·.shift v) }

/-- The pairs of boxes whose rectangles intersect, each in order. -/
def overlaps [Scalar α] (d : Diagram α) : List (String × String) :=
  pairs d.nodes
where
  pairs : List (TableBox α) → List (String × String)
    | [] => []
    | n :: rest =>
      ((rest.filter fun m => n.rect.intersects m.rect).map fun m => (n.id, m.id)) ++ pairs rest

end Diagram

end Erd

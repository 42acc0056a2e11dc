import Erd.Diagram.Framing
import Erd.Layout.Options

/-!
# The grid layout

Boxes stand in rows of equal count, as many columns as make the grid about square.  Edges play no part and
lose their ways.
-/

namespace Erd

/-- The least number of columns, and at least one, whose square holds so many boxes. -/
def gridColumns (count : Nat) : Nat :=
  max 1 (((List.range (count + 1)).find? fun c => count ≤ c * c).getD count)

variable {α : Type} [Scalar α]

/-- The corner of the next box and the height of the row so far. -/
structure GridCursor (α : Type) where
  x : α
  y : α
  rowHeight : α
deriving Repr

namespace GridCursor

/-- The start of the row below. -/
def nextRow (o : LayoutOptions α) (c : GridCursor α) : GridCursor α :=
  ⟨o.padding, c.y + (c.rowHeight + o.rankSpacing), Scalar.zero⟩

/-- The cursor to the right of a box of a given size. -/
def past (o : LayoutOptions α) (s : Size α) (c : GridCursor α) : GridCursor α :=
  ⟨c.x + (s.width + o.nodeSpacing), c.y, Scalar.larger c.rowHeight s.height⟩

end GridCursor

/-- Boxes from the one with a given number on, put one after the other. -/
def gridFrom (o : LayoutOptions α) (columns : Nat) :
    Nat → GridCursor α → List (TableBox α) → List (TableBox α)
  | _, _, [] => []
  | i, c, n :: rest =>
    let c := if 0 < i ∧ i % columns = 0 then c.nextRow o else c
    n.moveTo ⟨c.x, c.y⟩ :: gridFrom o columns (i + 1) (c.past o n.size) rest

namespace Diagram

def grid (options : LayoutOptions α) (d : Diagram α) : Diagram α :=
  let o := options.sanitized
  let nodes := gridFrom o (gridColumns d.nodes.length) 0 ⟨o.padding, o.padding, Scalar.zero⟩ d.nodes
  { d.clearRoutes with nodes }.fit .standard o.padding

end Diagram

end Erd

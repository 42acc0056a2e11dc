import Erd.Layering.Ranking
import Erd.Layout.Options

/-!
# Coordinates

Ranks become bands that follow each other across the drawing, and the boxes of a rank stand in a row
along their band, all rows centred.  Lengths are measured along and across ranks; for the direction from
top to bottom these are the two axes of the canvas, the other directions swap or reflect them.
-/

namespace Erd

variable {α : Type} [Scalar α]

/-- A sum from left to right. -/
def total (xs : List α) : α := xs.foldl (· + ·) Scalar.zero

/-- The greatest of some values and zero. -/
def greatest (xs : List α) : α := xs.foldl Scalar.larger Scalar.zero

namespace Size

/-- Width along and height across ranks. -/
def oriented (d : Direction) (s : Size α) : Size α :=
  if d.isHorizontal then ⟨s.height, s.width⟩ else s

end Size

/-- How a place along and across ranks is one on the canvas. -/
structure RankFrame (α : Type) where
  direction : Direction
  /-- The size of the drawing across ranks. -/
  depth : α
deriving DecidableEq, Repr

namespace RankFrame

def toCanvas (f : RankFrame α) (along across : α) : Point α :=
  let across := if f.direction.isReversed then f.depth - across else across
  if f.direction.isHorizontal then ⟨across, along⟩ else ⟨along, across⟩

end RankFrame

/-! ## Bands -/

/-- The boxes of a rank with the place and the size of its band. -/
structure Band (α : Type) where
  nodes : List Nat
  start : α
  thickness : α
  /-- The length of the row with the gaps between its boxes. -/
  length : α
deriving DecidableEq, Repr

namespace Band

/-- The middle of the gap between a band and the next. -/
def boundary (a b : Band α) : α := Scalar.half (a.start + a.thickness + b.start)

end Band

/-- The sizes of boxes along and across ranks. -/
structure RowMetrics (α : Type) where
  sizes : Array (Size α)
  nodeSpacing : α
  rankSpacing : α

namespace RowMetrics

def size (m : RowMetrics α) (node : Nat) : Size α := m.sizes.getD node ⟨Scalar.zero, Scalar.zero⟩

def rowLength (m : RowMetrics α) (layer : List Nat) : α :=
  total (layer.map fun i => (m.size i).width) + m.nodeSpacing * Scalar.ofNat (layer.length - 1)

def thickness (m : RowMetrics α) (layer : List Nat) : α :=
  greatest (layer.map fun i => (m.size i).height)

/-- The bands of some ranks, the first of them at a given place. -/
def bandsFrom (m : RowMetrics α) (start : α) : List (List Nat) → List (Band α)
  | [] => []
  | layer :: rest =>
    let thickness := m.thickness layer
    ⟨layer, start, thickness, m.rowLength layer⟩ ::
      m.bandsFrom (start + (thickness + m.rankSpacing)) rest

def bands (m : RowMetrics α) (layers : List (List Nat)) : List (Band α) :=
  m.bandsFrom Scalar.zero layers

/-- The place behind the last band and the gap after it. -/
def endOf (m : RowMetrics α) (bands : List (Band α)) : α :=
  bands.foldl (fun b band => b + (band.thickness + m.rankSpacing)) Scalar.zero

/-- The size of all bands across ranks. -/
def depth (m : RowMetrics α) (bands : List (Band α)) : α :=
  Scalar.larger (m.endOf bands - m.rankSpacing) Scalar.zero

/-- The centres of boxes in a row that begins at a place along the rank. -/
def rowCenters (m : RowMetrics α) (f : RankFrame α) (across : α) (along : α) :
    List Nat → List (Nat × Point α)
  | [] => []
  | i :: rest =>
    let width := (m.size i).width
    (i, f.toCanvas (along + Scalar.half width) across) ::
      m.rowCenters f across (along + (width + m.nodeSpacing)) rest

/-- The centres of the boxes of a band, whose row is centred on the widest. -/
def bandCenters (m : RowMetrics α) (f : RankFrame α) (widest : α) (b : Band α) :
    List (Nat × Point α) :=
  m.rowCenters f (b.start + Scalar.half b.thickness) (Scalar.half (widest - b.length)) b.nodes

/-- The centres of all boxes by number. -/
def centers (m : RowMetrics α) (f : RankFrame α) (bands : List (Band α)) : List (Nat × Point α) :=
  bands.flatMap (m.bandCenters f (greatest (bands.map (·.length))))

end RowMetrics

/-! ## Boxes -/

namespace TableBox

def centerAt (n : TableBox α) (c : Point α) : TableBox α :=
  n.moveTo ⟨c.x - Scalar.half n.size.width, c.y - Scalar.half n.size.height⟩

end TableBox

/-- The least of some values, if there are any. -/
def least? : List α → Option α
  | [] => none
  | x :: xs => some (xs.foldl Scalar.smaller x)

/-- The vector that takes the upper left corner of some boxes to a padding. -/
def cornerShift (padding : α) (nodes : List (TableBox α)) : Point α :=
  match least? (nodes.map (·.position.x)), least? (nodes.map (·.position.y)) with
  | some x, some y =>
    if Scalar.finite x && Scalar.finite y then ⟨padding - x, padding - y⟩ else ⟨padding, padding⟩
  | _, _ => ⟨padding, padding⟩

/-- A ranked drawing: its bands, its frame and the boxes in place. -/
structure Placement (α : Type) where
  frame : RankFrame α
  bands : List (Band α)
  shift : Point α
  nodes : List (TableBox α)

namespace Placement

def rowMetrics (o : LayoutOptions α) (nodes : List (TableBox α)) : RowMetrics α :=
  { sizes := (nodes.map fun n => n.size.oriented o.direction).toArray
    nodeSpacing := o.nodeSpacing
    rankSpacing := o.rankSpacing }

/-- Boxes put at their ranks, with the upper left corner of the drawing at the padding. -/
def ofLayers (o : LayoutOptions α) (layers : List (List Nat)) (nodes : List (TableBox α)) :
    Placement α :=
  let m := rowMetrics o nodes
  let bands := m.bands layers
  let frame : RankFrame α := ⟨o.direction, m.depth bands⟩
  let centers := m.centers frame bands
  let placed := nodes.zipIdx.map fun (n, i) => n.centerAt ((centers.lookup i).getD Point.origin)
  let shift := cornerShift o.padding placed
  { frame, bands, shift, nodes := placed.map (·.shift shift) }

end Placement

end Erd

import Erd.Layering.Placement

/-!
# Ways of edges

An edge runs straight from the centre of one box to the centre of the other, with a point wherever it
crosses the middle of the gap between two ranks.
-/

namespace Erd

variable {α : Type} [Scalar α]

/-- The middles of the gaps between neighbouring bands. -/
def boundaries : List (Band α) → List α
  | a :: b :: rest => a.boundary b :: boundaries (b :: rest)
  | _ => []

/-- The boundaries between two ranks in the order in which an edge crosses them. -/
def crossed (bounds : List α) (fromRank toRank : Nat) : List α :=
  if fromRank < toRank then (bounds.drop fromRank).take (toRank - fromRank)
  else ((bounds.drop toRank).take (fromRank - toRank)).reverse

namespace Point

/-- The coordinate across ranks. -/
def across (d : Direction) (p : Point α) : α := if d.isHorizontal then p.x else p.y

/-- The point of the line through two points that has a given coordinate across ranks; half way along if
the line has no extent across ranks. -/
def interpolate (d : Direction) (start stop : Point α) (across : α) : Point α :=
  let s := start.across d
  let e := stop.across d
  let t :=
    if Scalar.less Scalar.epsilon (Scalar.magnitude (e - s)) then (across - s) / (e - s)
    else Scalar.half (Scalar.ofNat 1)
  if d.isHorizontal then ⟨across, start.y + (stop.y - start.y) * t⟩
  else ⟨start.x + (stop.x - start.x) * t, across⟩

end Point

namespace Placement

/-- The coordinate across ranks of a boundary on the shifted canvas. -/
def onCanvas (p : Placement α) (boundary : α) : α :=
  ((p.frame.toCanvas Scalar.zero boundary).shift p.shift).across p.frame.direction

/-- The way between two centres in given ranks. -/
def way (p : Placement α) (fromRank toRank : Nat) (start stop : Point α) : List (Point α) :=
  let inner := (crossed (boundaries p.bands) fromRank toRank).map fun b =>
    Point.interpolate p.frame.direction start stop (p.onCanvas b)
  start :: inner ++ [stop]

/-- The way between two boxes by number. -/
def wayBetween (p : Placement α) (ranks : Array Nat) (u v : Nat) : List (Point α) :=
  match p.nodes[u]?, p.nodes[v]? with
  | some a, some b => p.way (ranks.getD u 0) (ranks.getD v 0) a.center b.center
  | _, _ => []

end Placement

namespace Diagram

/-- The diagram with its boxes placed and its edges led from box to box. -/
def place (d : Diagram α) (o : LayoutOptions α) (r : Ranking) : Diagram α :=
  let p := Placement.ofLayers o r.layers d.nodes
  { d with
    nodes := p.nodes
    edges := d.edges.map fun e =>
      e.route (match d.ends? e with
        | some (u, v) => p.wayBetween r.ranks u v
        | none => []) }

end Diagram

end Erd

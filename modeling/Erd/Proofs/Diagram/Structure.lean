import Erd.Diagram.Framing

/-!
# Structure and drawing

The structure of a diagram is all of it but the places of boxes, the ways of edges, the frames of groups and
the bounds.  Framing a drawing keeps its structure, and no earlier frame has an influence on it.

    (d.fit m padding).bare = d.bare                                                    (bare_fit)
    d.unframed = e.unframed → d.fit m padding = e.fit m padding                      (fit_congr)
-/

namespace Erd

variable {α : Type} [Scalar α]

/-! ## Definitions -/

def TableBox.unplaced (n : TableBox α) : TableBox α := n.moveTo Point.origin

omit [Scalar α] in
def GroupFrame.unframed (g : GroupFrame α) : GroupFrame α := { g with bounds := none }

namespace Diagram

/-- The diagram without frames and bounds. -/
def unframed (d : Diagram α) : Diagram α := { d with groups := d.groups.map (·.unframed), bounds := none }

/-- The diagram without places, ways, frames and bounds. -/
def bare (d : Diagram α) : Diagram α :=
  { d.unframed with nodes := d.nodes.map (·.unplaced), edges := d.edges.map (·.route []) }

/-- Diagrams that are equal but for places, ways, frames and bounds. -/
def SameStructure (d e : Diagram α) : Prop := d.bare = e.bare

end Diagram

/-! ## Framing -/

namespace Diagram

omit [Scalar α] in
theorem unframed_unframed (d : Diagram α) : d.unframed.unframed = d.unframed := by
  unfold unframed
  dsimp only
  rw [List.map_map]
  rfl

theorem unframed_bound (m : Metrics α) (padding : α) (d : Diagram α) : (d.bound m padding).unframed = d.unframed := by
  unfold bound unframed
  dsimp only
  rw [List.map_map]
  rfl

theorem bound_unframed (m : Metrics α) (padding : α) (d : Diagram α) :
    d.unframed.bound m padding = d.bound m padding := by
  unfold bound unframed
  dsimp only
  rw [List.map_map]
  rfl

theorem bound_congr {m : Metrics α} {padding : α} {d e : Diagram α} (h : d.unframed = e.unframed) :
    d.bound m padding = e.bound m padding := by
  rw [← bound_unframed, h, bound_unframed]

/-- What is framed anew keeps no trace of earlier frames. -/
theorem fit_unframed (m : Metrics α) (padding : α) (d : Diagram α) :
    d.unframed.fit m padding = d.fit m padding := by
  unfold fit
  rw [bound_unframed]

theorem fit_congr {m : Metrics α} {padding : α} {d e : Diagram α} (h : d.unframed = e.unframed) :
    d.fit m padding = e.fit m padding := by
  rw [← d.fit_unframed, h, fit_unframed]

theorem bare_bound (m : Metrics α) (padding : α) (d : Diagram α) : (d.bound m padding).bare = d.bare := by
  unfold bare
  rw [unframed_bound]
  rfl

theorem bare_shift (v : Point α) (d : Diagram α) : (d.shift v).bare = d.bare := by
  have hnodes : (d.nodes.map (·.shift v)).map (·.unplaced) = d.nodes.map (·.unplaced) := List.map_map
  have hedges : (d.edges.map (·.shift v)).map (·.route []) = d.edges.map (·.route []) := List.map_map
  unfold shift bare unframed
  dsimp only
  rw [hnodes, hedges]

/-- A frame keeps the structure. -/
theorem bare_fit (m : Metrics α) (padding : α) (d : Diagram α) : (d.fit m padding).bare = d.bare := by
  unfold fit
  dsimp only
  split
  · exact d.bare_bound m padding
  · rw [bare_bound, bare_shift, bare_bound]

end Diagram

end Erd

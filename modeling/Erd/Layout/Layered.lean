import Erd.Diagram.Framing
import Erd.Layering.Crossing
import Erd.Layering.Route

/-!
# The layered layout

Boxes are ranked along the relations, ordered within their ranks, placed and framed.
-/

namespace Erd

variable {α : Type} [Scalar α]

namespace Diagram

/-- The layered layout; a diagram without boxes loses the ways of its edges. -/
def layered (options : LayoutOptions α) (d : Diagram α) : Diagram α :=
  let o := options.sanitized
  let placed := if d.nodes.isEmpty then d.clearRoutes else d.place o (d.ranking.ordered α)
  placed.fit .standard o.padding

end Diagram

end Erd

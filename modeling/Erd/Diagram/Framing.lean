import Erd.Diagram.Metrics

/-!
# Frames and bounds

The frame of a group is the hull of its members with some padding and a header; the bounds of a diagram
are the hull of all boxes and frames with some padding.  `Diagram.fit` moves the drawing so that its
bounds begin at the origin.
-/

namespace Erd

variable {α : Type} [Scalar α]

namespace GroupFrame

/-- The rectangles of the boxes that a group lists. -/
def memberRects (nodes : List (TableBox α)) (g : GroupFrame α) : List (Rect α) :=
  (nodes.filter fun n => g.members.contains n.id).map (·.rect)

/-- The frame around the members, if there are any. -/
def frame? (m : Metrics α) (nodes : List (TableBox α)) (g : GroupFrame α) : Option (Rect α) :=
  (Rect.hull? (g.memberRects nodes)).map fun r =>
    r.expand m.groupPadding (m.groupPadding + m.groupHeaderHeight) m.groupPadding

def reframe (m : Metrics α) (nodes : List (TableBox α)) (g : GroupFrame α) : GroupFrame α :=
  { g with bounds := g.frame? m nodes }

end GroupFrame

namespace Diagram

/-- The padding around a drawing when none is given. -/
def standardPadding : α := Scalar.ofNat 50

/-- All that the bounds enclose. -/
def content (nodes : List (TableBox α)) (groups : List (GroupFrame α)) : List (Rect α) :=
  nodes.map (·.rect) ++ groups.filterMap (·.bounds)

/-- The bounds of boxes and frames; an empty drawing has empty bounds. -/
def boundsOf (nodes : List (TableBox α)) (groups : List (GroupFrame α)) (padding : α) : Rect α :=
  match Rect.hull? (content nodes groups) with
  | some r => r.expand padding padding padding
  | none => Rect.empty

/-- The diagram with its frames and bounds computed anew; nothing moves. -/
def bound (m : Metrics α) (padding : α) (d : Diagram α) : Diagram α :=
  let groups := d.groups.map (·.reframe m d.nodes)
  { d with groups, bounds := some (boundsOf d.nodes groups padding) }

/-- The vector that takes the bounds to the origin. -/
def toOrigin (d : Diagram α) : Point α :=
  match d.bounds with
  | some r => ⟨-r.x, -r.y⟩
  | none => Point.origin

/-- The diagram moved so that its bounds begin at the origin. -/
def fit (m : Metrics α) (padding : α) (d : Diagram α) : Diagram α :=
  let d := d.bound m padding
  let v := d.toOrigin
  if Scalar.same v.x Scalar.zero && Scalar.same v.y Scalar.zero then d
  else (d.shift v).bound m padding

end Diagram

end Erd

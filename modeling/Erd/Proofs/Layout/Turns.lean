import Erd.Layering.Route
import Erd.Proofs.Diagram.Image
import Erd.Proofs.Layout.Separation

/-!
# Placements in the four directions

The direction of a layout decides how lengths along and across ranks become sizes and places on the canvas.
Between opposite directions a reflection leads from one canvas to the other, and between top to bottom and left
to right the exchange of the axes does.  Centres, boxes and the points between ranks all follow it.

    (mirror d.axis k).Turns d d.opposite,  (transpose v).Turns .topToBottom .leftToRight
    centers in the second frame are the images of those in the first                      (centers_image)
    (mirror d.axis k).Carries (ofLayers … d …) (ofLayers … d.opposite …)               (carries_opposite)
    σ.Carries p q → q.wayBetween ranks u v = (p.wayBetween ranks u v).map σ.point      (wayBetween_image)
-/

namespace Erd

/-! ## Directions -/

namespace Direction

/-- The axis across ranks. -/
def axis (d : Direction) : Axis := if d.isHorizontal then .x else .y

def opposite : Direction → Direction
  | topToBottom => bottomToTop
  | bottomToTop => topToBottom
  | leftToRight => rightToLeft
  | rightToLeft => leftToRight

theorem isHorizontal_opposite (d : Direction) : d.opposite.isHorizontal = d.isHorizontal := by
  cases d <;> rfl

theorem axis_opposite (d : Direction) : d.opposite.axis = d.axis := by
  cases d <;> rfl

end Direction

def LayoutOptions.toward {α : Type} (o : LayoutOptions α) (d : Direction) : LayoutOptions α := { o with direction := d }

/-! ## Points between ranks -/

theorem Scalar.magnitude_eq (a : ℚ) : magnitude a = |a| := by
  unfold magnitude
  rw [less_eq, zero_eq]
  by_cases h : a < 0
  · rw [decide_eq_true h, if_pos rfl, abs_of_neg h]
  · rw [decide_eq_false h, if_neg Bool.false_ne_true, abs_of_nonneg (not_lt.1 h)]

namespace Point

theorem across_eq (d : Direction) (p : Point ℚ) : p.across d = p.on d.axis := by
  cases d <;> rfl

/-- The part of the way from one coordinate to another at which a third one is reached. -/
def ratio (s e t : ℚ) : ℚ := if Scalar.epsilon < |e - s| then (t - s) / (e - s) else 1 / 2

theorem ratio_add (v s e t : ℚ) : ratio (s + v) (e + v) (t + v) = ratio s e t := by
  unfold ratio
  rw [add_sub_add_right_eq_sub, add_sub_add_right_eq_sub]

theorem ratio_sub (k s e t : ℚ) : ratio (k - s) (k - e) (k - t) = ratio s e t := by
  have hneg (a b : ℚ) : k - a - (k - b) = -(a - b) := by ring
  unfold ratio
  rw [hneg, hneg, abs_neg, neg_div_neg_eq]

theorem on_interpolate (d : Direction) (p q : Point ℚ) (t : ℚ) : (interpolate d p q t).on d.axis = t := by
  cases d <;> rfl

theorem on_other_interpolate (d : Direction) (p q : Point ℚ) (t : ℚ) : (interpolate d p q t).on d.axis.other =
    p.on d.axis.other + (q.on d.axis.other - p.on d.axis.other) * ratio (p.on d.axis) (q.on d.axis) t := by
  unfold interpolate ratio
  simp only [Scalar.magnitude_eq, Scalar.less_eq, decide_eq_true_eq, across_eq]
  cases d <;> rfl

end Point

/-! ## Symmetries between directions -/

namespace Symmetry

/-- A symmetry that takes what is along and across ranks in one direction to that in another. -/
structure Turns (σ : Symmetry) (d d' : Direction) : Prop where
  size : ∀ s, (σ.size s).oriented d' = s.oriented d
  interpolate : ∀ p q r, Point.interpolate d' (σ.point p) (σ.point q) ((σ.point r).across d') =
    σ.point (Point.interpolate d p q (r.across d))

theorem mirror_turns (d : Direction) (k : ℚ) : (mirror d.axis k).Turns d d.opposite := by
  refine ⟨fun s => ?_, fun p q r => ?_⟩
  · unfold Size.oriented
    rw [d.isHorizontal_opposite]
    rfl
  · refine Point.ext_on (a := d.axis) ?_ ?_
    · rw [← d.axis_opposite, Point.on_interpolate, Point.across_eq, d.axis_opposite, on_mirror, on_mirror,
        Point.on_interpolate, Point.across_eq]
    · rw [← d.axis_opposite, Point.on_other_interpolate, Point.across_eq, d.axis_opposite]
      rw [on_mirror, on_mirror, on_mirror, Point.ratio_sub]
      rw [on_other_mirror, on_other_mirror, on_other_mirror, Point.on_other_interpolate, Point.across_eq]

theorem transpose_turns (v : Point ℚ) : (transpose v).Turns .topToBottom .leftToRight := by
  refine ⟨fun _ => rfl, fun p q r => Point.ext_on (a := .x) rfl ?_⟩
  have hleft : (Point.interpolate .leftToRight ((transpose v).point p) ((transpose v).point q) (r.y + v.x)).y =
      p.x + v.y + (q.x + v.y - (p.x + v.y)) * Point.ratio (p.y + v.x) (q.y + v.x) (r.y + v.x) :=
    Point.on_other_interpolate .leftToRight _ _ _
  have hright : (Point.interpolate .topToBottom p q r.y).x = p.x + (q.x - p.x) * Point.ratio p.y q.y r.y :=
    Point.on_other_interpolate .topToBottom p q r.y
  show (Point.interpolate .leftToRight ((transpose v).point p) ((transpose v).point q) (r.y + v.x)).y =
    (Point.interpolate .topToBottom p q r.y).x + v.y
  rw [hleft, hright, Point.ratio_add]
  ring

/-- A turn that takes the places in one frame to those in another. -/
structure TurnsFrame (σ : Symmetry) (f f' : RankFrame ℚ) : Prop where
  turns : σ.Turns f.direction f'.direction
  canvas : ∀ along across, f'.toCanvas along across = σ.point (f.toCanvas along across)

/-- Opposite directions reflect the canvas at the middle of the drawing. -/
theorem mirror_turnsFrame (d : Direction) (depth : ℚ) :
    (mirror d.axis depth).TurnsFrame ⟨d, depth⟩ ⟨d.opposite, depth⟩ := by
  refine ⟨mirror_turns d depth, fun along across => ?_⟩
  have hback : depth - (depth - across) = across := by ring
  cases d with
  | topToBottom => rfl
  | bottomToTop => exact congrArg (Point.mk along) hback.symm
  | leftToRight => rfl
  | rightToLeft => exact congrArg (Point.mk · along) hback.symm

theorem transpose_turnsFrame (depth : ℚ) :
    (transpose ⟨0, 0⟩).TurnsFrame ⟨.topToBottom, depth⟩ ⟨.leftToRight, depth⟩ := by
  refine ⟨transpose_turns ⟨0, 0⟩, fun along across => ?_⟩
  exact (Point.mk.injEq ..).mpr ⟨(add_zero across).symm, (add_zero along).symm⟩

end Symmetry

/-! ## Centres -/

namespace RowMetrics

variable {σ : Symmetry} {f f' : RankFrame ℚ} (m : RowMetrics ℚ)

theorem rowCenters_image (h : σ.TurnsFrame f f') (across along : ℚ) (layer : List Nat) :
    m.rowCenters f' across along layer = (m.rowCenters f across along layer).map (Prod.map id σ.point) := by
  induction layer generalizing along with
  | nil => rfl
  | cons i rest ih =>
    unfold rowCenters
    dsimp only
    rw [ih, h.canvas, List.map_cons]
    rfl

theorem centers_image (h : σ.TurnsFrame f f') (bands : List (Band ℚ)) :
    m.centers f' bands = (m.centers f bands).map (Prod.map id σ.point) := by
  unfold centers
  rw [List.map_flatMap]
  exact congrArg (List.flatMap · bands) (funext fun b => m.rowCenters_image h _ _ b.nodes)

end RowMetrics

theorem lookup_map {β γ : Type} (f : β → γ) (xs : List (Nat × β)) (i : Nat) :
    (xs.map (Prod.map id f)).lookup i = (xs.lookup i).map f := by
  induction xs with
  | nil => rfl
  | cons x xs ih =>
    obtain ⟨j, b⟩ := x
    simp only [List.map_cons, Prod.map_apply, id_eq, List.lookup_cons]
    cases i == j with
    | true => rfl
    | false => exact ih

/-! ## Boxes in their ranks -/

theorem on_cornerShift (a : Axis) (padding : ℚ) (nodes : List (TableBox ℚ)) : (cornerShift padding nodes).on a =
    ((least? (nodes.map (·.position.on a))).map (padding - ·)).getD padding := by
  cases nodes with
  | nil => cases a <;> rfl
  | cons n rest => cases a <;> rfl

namespace Placement

/-- The size of a drawing across ranks. -/
def depthOf (o : LayoutOptions ℚ) (layers : List (List Nat)) (nodes : List (TableBox ℚ)) : ℚ :=
  (rowMetrics o nodes).depth ((rowMetrics o nodes).bands layers)

/-- The boxes around their centres, before the drawing is moved to its padding. -/
def placed (o : LayoutOptions ℚ) (layers : List (List Nat)) (nodes : List (TableBox ℚ)) : List (TableBox ℚ) :=
  nodes.zipIdx.map fun (n, i) => n.centerAt (((centersOf o layers nodes).lookup i).getD Point.origin)

theorem nodes_ofLayers (o : LayoutOptions ℚ) (layers : List (List Nat)) (nodes : List (TableBox ℚ)) :
    (ofLayers o layers nodes).nodes =
      (placed o layers nodes).map (·.shift (cornerShift o.padding (placed o layers nodes))) := rfl

section
variable {σ : Symmetry} {d d' : Direction} {o : LayoutOptions ℚ} {layers : List (List Nat)}
  {nodes : List (TableBox ℚ)}

theorem rowMetrics_resize (h : σ.Turns d d') (o : LayoutOptions ℚ) (nodes : List (TableBox ℚ)) :
    rowMetrics (o.toward d') (nodes.map σ.resize) = rowMetrics (o.toward d) nodes := by
  have hsizes : (nodes.map σ.resize).map (·.size.oriented d') = nodes.map (·.size.oriented d) := by
    rw [List.map_map]
    exact List.map_congr_left fun n _ => h.size n.size
  show RowMetrics.mk ((nodes.map σ.resize).map (·.size.oriented d')).toArray o.nodeSpacing o.rankSpacing = _
  rw [hsizes]
  rfl

variable (h : σ.TurnsFrame ⟨d, depthOf (o.toward d) layers nodes⟩ ⟨d', depthOf (o.toward d) layers nodes⟩)

include h

theorem centersOf_image : centersOf (o.toward d') layers (nodes.map σ.resize) =
    (centersOf (o.toward d) layers nodes).map (Prod.map id σ.point) := by
  unfold centersOf
  dsimp only
  rw [rowMetrics_resize h.turns]
  exact RowMetrics.centers_image _ h _

variable (hlayers : ∀ i < nodes.length, i ∈ layers.flatten)

include hlayers

/-- Boxes that stand in ranks are put around the images of their centres. -/
theorem placed_image :
    placed (o.toward d') layers (nodes.map σ.resize) = (placed (o.toward d) layers nodes).map σ.box := by
  unfold placed
  rw [List.zipIdx_map, List.map_map, List.map_map, centersOf_image h]
  refine List.map_congr_left ?_
  rintro ⟨n, i⟩ hn
  have hi : i < nodes.length := (List.getElem?_eq_some_iff.1 (List.mem_zipIdx_iff_getElem?.1 hn)).1
  obtain ⟨c, hc, -⟩ := exists_center (o.toward d) nodes (hlayers i hi)
  simp only [Function.comp_apply, Prod.map_apply, id_eq, lookup_map, hc, Option.map_some, Option.getD_some,
    σ.box_centerAt]

end

end Placement

/-! ## Drawings in place -/

/-- The second placement is the image of the first, on the same bands. -/
structure Symmetry.Carries (σ : Symmetry) (p q : Placement ℚ) : Prop where
  turns : σ.Turns p.frame.direction q.frame.direction
  bands : q.bands = p.bands
  canvas : ∀ b, (q.frame.toCanvas Scalar.zero b).shift q.shift =
    σ.point ((p.frame.toCanvas Scalar.zero b).shift p.shift)
  nodes : q.nodes = p.nodes.map σ.box

namespace Placement

section
variable {d d' : Direction} {o : LayoutOptions ℚ} {layers : List (List Nat)} {nodes : List (TableBox ℚ)}

/-- Placed boxes and their frame are moved to the padding, so the symmetry between them is another one. -/
theorem carries_ofLayers {σ σ' : Symmetry}
    (h : σ.TurnsFrame ⟨d, depthOf (o.toward d) layers nodes⟩ ⟨d', depthOf (o.toward d) layers nodes⟩)
    (hlayers : ∀ i < nodes.length, i ∈ layers.flatten) (h' : σ'.Turns d d')
    (hmoves : σ.Moves (cornerShift o.padding (placed (o.toward d) layers nodes))
      (cornerShift o.padding ((placed (o.toward d) layers nodes).map σ.box)) σ') :
    σ'.Carries (ofLayers (o.toward d) layers nodes) (ofLayers (o.toward d') layers (nodes.map σ.resize)) := by
  have hmetrics := rowMetrics_resize h.turns o nodes
  have hplaced := placed_image h hlayers
  have hshift : (ofLayers (o.toward d') layers (nodes.map σ.resize)).shift =
      cornerShift o.padding ((placed (o.toward d) layers nodes).map σ.box) := congrArg (cornerShift o.padding) hplaced
  refine ⟨h', ?_, fun b => ?_, ?_⟩
  · unfold ofLayers
    dsimp only
    rw [hmetrics]
  · have hframe : (ofLayers (o.toward d') layers (nodes.map σ.resize)).frame =
        ⟨d', depthOf (o.toward d) layers nodes⟩ := by
      unfold ofLayers depthOf
      dsimp only
      rw [hmetrics]
      rfl
    rw [hshift, hframe, h.canvas]
    exact hmoves.point _
  · rw [nodes_ofLayers, nodes_ofLayers, hplaced, List.map_map, List.map_map]
    exact List.map_congr_left fun n _ => Symmetry.shift_box hmoves n

/-- Opposite directions place the boxes in each other's mirror image. -/
theorem carries_opposite (d : Direction) (o : LayoutOptions ℚ) (hlayers : ∀ i < nodes.length, i ∈ layers.flatten) :
    ∃ k, (Symmetry.mirror d.axis k).Carries (ofLayers (o.toward d) layers nodes)
      (ofLayers (o.toward d.opposite) layers nodes) := by
  let σ := Symmetry.mirror d.axis (depthOf (o.toward d) layers nodes)
  have hresize : nodes.map σ.resize = nodes := List.map_id' nodes
  have hpositions : ((placed (o.toward d) layers nodes).map σ.box).map (·.position.on d.axis.other) =
      (placed (o.toward d) layers nodes).map (·.position.on d.axis.other) := by
    rw [List.map_map]
    exact List.map_congr_left fun n _ => Symmetry.position_mirror ..
  have hshift : (cornerShift o.padding ((placed (o.toward d) layers nodes).map σ.box)).on d.axis.other =
      (cornerShift o.padding (placed (o.toward d) layers nodes)).on d.axis.other := by
    rw [on_cornerShift, on_cornerShift, hpositions]
  have hcarries := carries_ofLayers (Symmetry.mirror_turnsFrame d _) hlayers (Symmetry.mirror_turns d _)
    (Symmetry.mirror_moves hshift _)
  exact ⟨_, hresize ▸ hcarries⟩

/-- From left to right, boxes are placed as from top to bottom, with the axes exchanged. -/
theorem carries_transpose (o : LayoutOptions ℚ) (hlayers : ∀ i < nodes.length, i ∈ layers.flatten) :
    ∃ v, (Symmetry.transpose v).Carries (ofLayers (o.toward .topToBottom) layers nodes)
      (ofLayers (o.toward .leftToRight) layers (nodes.map (Symmetry.transpose ⟨0, 0⟩).resize)) :=
  ⟨_, carries_ofLayers (Symmetry.transpose_turnsFrame _) hlayers (Symmetry.transpose_turns _)
    (Symmetry.transpose_moves _ _ _)⟩

end

/-! ## Ways -/

variable {σ : Symmetry} {p q : Placement ℚ}

theorem way_image (h : σ.Carries p q) (fromRank toRank : Nat) (start stop : Point ℚ) :
    q.way fromRank toRank (σ.point start) (σ.point stop) = (p.way fromRank toRank start stop).map σ.point := by
  have hinner (b : ℚ) : Point.interpolate q.frame.direction (σ.point start) (σ.point stop) (q.onCanvas b) =
      σ.point (Point.interpolate p.frame.direction start stop (p.onCanvas b)) := by
    unfold onCanvas
    rw [h.canvas, h.turns.interpolate]
  unfold way
  dsimp only
  rw [h.bands, List.map_append, List.map_cons, List.map_map]
  simp only [hinner]
  rfl

/-- Ways lead through the images of the points, one by one. -/
theorem wayBetween_image (h : σ.Carries p q) (ranks : Array Nat) (u v : Nat) :
    q.wayBetween ranks u v = (p.wayBetween ranks u v).map σ.point := by
  unfold wayBetween
  rw [h.nodes, List.getElem?_map, List.getElem?_map]
  cases p.nodes[u]? with
  | none => rfl
  | some a =>
    cases p.nodes[v]? with
    | none => rfl
    | some b =>
      simp only [Option.map_some, σ.center_box]
      exact way_image h _ _ a.center b.center

end Placement

end Erd

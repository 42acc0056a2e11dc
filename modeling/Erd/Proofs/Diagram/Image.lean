import Erd.Proofs.Diagram.Structure
import Erd.Proofs.Geometry.Symmetry

/-!
# Images of drawings

The image of a drawing under a symmetry has the images of its boxes and of the ways of its edges.  Frames are
no part of it, since the header of a group is above its boxes in every drawing.  Where the bounds begin on an
axis is read off the coordinates on that axis alone, so that drawings that are images of each other remain so
when both are framed.

    d.Aligned a e → (d.offset m padding).on a = (e.offset m padding).on a              (offset_congr)
    d.fit m padding = (d.shift (d.offset m padding)).bound m padding                          (fit_eq)
    e.unframed = (mirror a k).image d → framed, the same for some other k                (fit_mirror)
    e.unframed = (transpose v).image d → framed, the same for some other v            (fit_transpose)
-/

namespace Erd

section
variable {α : Type} [Scalar α]

/-! ## Corners -/

namespace Rect

omit [Scalar α] in
/-- The upper left corner. -/
def corner (r : Rect α) : Point α := ⟨r.x, r.y⟩

theorem corner_union (a : Axis) (r s : Rect α) :
    (r.union s).corner.on a = Scalar.smaller (r.corner.on a) (s.corner.on a) := by
  cases a <;> rfl

theorem corner_expand (a : Axis) (r : Rect α) (side top foot : α) :
    (r.expand side top foot).corner.on a = r.corner.on a - (⟨side, top⟩ : Point α).on a := by
  cases a <;> rfl

theorem corner_foldl (a : Axis) (r : Rect α) (rs : List (Rect α)) :
    (rs.foldl union r).corner.on a = (rs.map (·.corner.on a)).foldl Scalar.smaller (r.corner.on a) := by
  induction rs generalizing r with
  | nil => rfl
  | cons s rs ih =>
    rw [List.foldl_cons, ih, corner_union]
    rfl

/-- A hull begins where the first of its rectangles begins. -/
theorem corner_hull (a : Axis) (rs : List (Rect α)) :
    (hull? rs).map (·.corner.on a) = least? (rs.map (·.corner.on a)) := by
  cases rs with
  | nil => rfl
  | cons r rs => exact congrArg some (corner_foldl a r rs)

end Rect

/-! ## Where bounds begin -/

/-- Where the frame of a group begins on an axis, read off the coordinates of the boxes by id. -/
def GroupFrame.start? (a : Axis) (m : Metrics α) (places : List (String × α)) (members : List String) : Option α :=
  (least? ((places.filter fun n => members.contains n.1).map (·.2))).map fun t =>
    t - (⟨m.groupPadding, m.groupPadding + m.groupHeaderHeight⟩ : Point α).on a

namespace Diagram

/-- The coordinates of the boxes on an axis by id. -/
def places (a : Axis) (d : Diagram α) : List (String × α) := d.nodes.map fun n => (n.id, n.position.on a)

/-- Equal ids, members and coordinates on an axis. -/
structure Aligned (a : Axis) (d e : Diagram α) : Prop where
  places : d.places a = e.places a
  members : d.groups.map (·.members) = e.groups.map (·.members)

theorem corner_frame (a : Axis) (m : Metrics α) (d : Diagram α) (g : GroupFrame α) :
    (g.frame? m d.nodes).map (·.corner.on a) = GroupFrame.start? a m (d.places a) g.members := by
  have hmembers : (g.memberRects d.nodes).map (·.corner.on a) =
      ((d.places a).filter fun n => g.members.contains n.1).map (·.2) := by
    unfold GroupFrame.memberRects places
    rw [List.filter_map, List.map_map, List.map_map]
    cases a <;> rfl
  unfold GroupFrame.frame? GroupFrame.start?
  rw [← hmembers, ← Rect.corner_hull, Option.map_map, Option.map_map]
  exact congrArg (Option.map · _) (funext fun r => Rect.corner_expand a r _ _ _)

/-- Where all that the bounds enclose begins on an axis. -/
theorem corner_content (a : Axis) (m : Metrics α) (d : Diagram α) :
    (content d.nodes (d.groups.map (·.reframe m d.nodes))).map (·.corner.on a) =
      (d.places a).map (·.2) ++ (d.groups.map (·.members)).filterMap (GroupFrame.start? a m (d.places a)) := by
  have hnodes : (d.nodes.map (·.rect)).map (·.corner.on a) = (d.places a).map (·.2) := by
    unfold places
    rw [List.map_map, List.map_map]
    cases a <;> rfl
  have hframes : ((d.groups.map (·.reframe m d.nodes)).filterMap (·.bounds)).map (·.corner.on a) =
      (d.groups.map (·.members)).filterMap (GroupFrame.start? a m (d.places a)) := by
    rw [List.filterMap_map, List.map_filterMap, List.filterMap_map]
    exact congrArg (List.filterMap · _) (funext fun g => d.corner_frame a m g)
  unfold content
  rw [List.map_append, hnodes, hframes]

/-- The vector by which a frame moves a drawing. -/
def offset (m : Metrics α) (padding : α) (d : Diagram α) : Point α := (d.bound m padding).toOrigin

theorem on_offset (a : Axis) (m : Metrics α) (padding : α) (d : Diagram α) : (d.offset m padding).on a =
    -((least? ((content d.nodes (d.groups.map (·.reframe m d.nodes))).map (·.corner.on a))).map
      (· - padding)).getD Scalar.zero := by
  rw [← Rect.corner_hull]
  unfold offset bound toOrigin boundsOf
  dsimp only
  cases Rect.hull? (content d.nodes (d.groups.map (·.reframe m d.nodes))) <;> cases a <;> rfl

/-- A frame moves drawings alike on an axis on which they are alike. -/
theorem offset_congr {a : Axis} {d e : Diagram α} (h : d.Aligned a e) (m : Metrics α) (padding : α) :
    (d.offset m padding).on a = (e.offset m padding).on a := by
  rw [on_offset, on_offset, corner_content, corner_content, h.places, h.members]

end Diagram

end

/-! ## Frames as moves -/

namespace Diagram

theorem shift_zero (d : Diagram ℚ) : d.shift ⟨0, 0⟩ = d := by
  have hpoint (p : Point ℚ) : p.shift ⟨0, 0⟩ = p := (Point.mk.injEq ..).mpr ⟨zero_add p.x, zero_add p.y⟩
  have hnode (n : TableBox ℚ) : n.shift ⟨0, 0⟩ = n := congrArg n.moveTo (hpoint n.position)
  have hedge (e : Edge ℚ) : e.shift ⟨0, 0⟩ = e := by
    unfold Edge.shift
    rw [List.map_congr_left fun p _ => hpoint p, List.map_id']
    rfl
  unfold shift
  rw [List.map_congr_left fun n _ => hnode n, List.map_congr_left fun e _ => hedge e, List.map_id', List.map_id']

theorem unframed_shift (v : Point ℚ) (d : Diagram ℚ) : (d.shift v).unframed = d.unframed.shift v := rfl

/-- A frame is a move and new bounds around it; no move is needed if the bounds begin at the origin. -/
theorem fit_eq (m : Metrics ℚ) (padding : ℚ) (d : Diagram ℚ) :
    d.fit m padding = (d.shift (d.offset m padding)).bound m padding := by
  unfold fit
  dsimp only
  split
  · next h =>
    have hzero : d.offset m padding = ⟨0, 0⟩ := by
      simp only [Scalar.same_eq, Scalar.zero_eq, Bool.and_eq_true, decide_eq_true_eq] at h
      exact (Point.mk.injEq ..).mpr h
    rw [hzero, shift_zero]
  · refine bound_congr ?_
    rw [unframed_shift, unframed_bound, unframed_shift]
    rfl

/-- A frame moves a drawing, and nothing more. -/
theorem unframed_fit (m : Metrics ℚ) (padding : ℚ) (d : Diagram ℚ) :
    (d.fit m padding).unframed = (d.shift (d.offset m padding)).unframed := by
  rw [fit_eq, unframed_bound]

end Diagram

/-! ## Images -/

namespace Symmetry

def edge (σ : Symmetry) (e : Edge ℚ) : Edge ℚ := e.route (e.points.map σ.point)

/-- The image of boxes and edges, without frames. -/
def image (σ : Symmetry) (d : Diagram ℚ) : Diagram ℚ :=
  { d.unframed with nodes := d.nodes.map σ.box, edges := d.edges.map σ.edge }

variable {σ σ' : Symmetry} {v v' : Point ℚ}

theorem shift_image (h : σ.Moves v v' σ') (d : Diagram ℚ) : (σ.image d).shift v' = σ'.image (d.shift v) := by
  have hnodes : (d.nodes.map σ.box).map (·.shift v') = (d.nodes.map (·.shift v)).map σ'.box := by
    rw [List.map_map, List.map_map]
    exact List.map_congr_left fun n _ => shift_box h n
  have hedges : (d.edges.map σ.edge).map (·.shift v') = (d.edges.map (·.shift v)).map σ'.edge := by
    rw [List.map_map, List.map_map]
    refine List.map_congr_left fun e _ => congrArg e.route ?_
    show (e.points.map σ.point).map (·.shift v') = (e.points.map (·.shift v)).map σ'.point
    rw [List.map_map, List.map_map]
    exact List.map_congr_left fun p _ => h.point p
  unfold image Diagram.shift
  dsimp only
  rw [hnodes, hedges]
  rfl

theorem image_unframed (σ : Symmetry) (d : Diagram ℚ) : σ.image d.unframed = σ.image d := by
  unfold image
  rw [d.unframed_unframed]
  rfl

theorem unframed_image (σ : Symmetry) (d : Diagram ℚ) : (σ.image d).unframed = σ.image d := σ.image_unframed d

/-- Images remain images if both drawings are framed. -/
theorem fit_image {m : Metrics ℚ} {padding : ℚ} {d e : Diagram ℚ} (h : e.unframed = σ.image d)
    (hmoves : σ.Moves (d.offset m padding) ((σ.image d).offset m padding) σ') :
    (e.fit m padding).unframed = σ'.image (d.fit m padding) := by
  have he : e.fit m padding = (σ.image d).fit m padding := Diagram.fit_congr (by rw [h, unframed_image])
  rw [he, Diagram.unframed_fit, shift_image hmoves, unframed_image, ← image_unframed, ← Diagram.unframed_fit,
    image_unframed]

theorem aligned_mirror (a : Axis) (k : ℚ) (d : Diagram ℚ) : ((mirror a k).image d).Aligned a.other d := by
  refine ⟨?_, ?_⟩
  · show (d.nodes.map (mirror a k).box).map (fun n => (n.id, n.position.on a.other)) = d.places a.other
    rw [List.map_map]
    exact List.map_congr_left fun n _ => congrArg (n.id, ·) (position_mirror a k n)
  · show (d.groups.map (·.unframed)).map (·.members) = d.groups.map (·.members)
    rw [List.map_map]
    rfl

theorem fit_mirror {a : Axis} {k : ℚ} {d e : Diagram ℚ} (h : e.unframed = (mirror a k).image d) (m : Metrics ℚ)
    (padding : ℚ) : ∃ k', (e.fit m padding).unframed = (mirror a k').image (d.fit m padding) :=
  ⟨_, fit_image h (mirror_moves (Diagram.offset_congr (aligned_mirror a k d) m padding) k)⟩

theorem fit_transpose {v : Point ℚ} {d e : Diagram ℚ} (h : e.unframed = (transpose v).image d) (m : Metrics ℚ)
    (padding : ℚ) : ∃ v', (e.fit m padding).unframed = (transpose v').image (d.fit m padding) :=
  ⟨_, fit_image h (transpose_moves _ _ v)⟩

end Symmetry

end Erd

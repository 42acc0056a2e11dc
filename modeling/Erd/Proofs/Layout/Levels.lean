import Mathlib.Order.Bounds.Basic
import Erd.Proofs.Layering.Boundaries
import Erd.Proofs.Layout.Flow
import Erd.Proofs.Layout.Turns

/-!
# Levels of a drawing

Across ranks a drawing is read on one scale that rises from rank to rank, whatever its direction is and wherever
it was moved.  On this scale every box lies between the two sides of its band, and in every rank some box reaches
both of them.

    n.rect.near d, n.rect.far d = n.center.downstream d ∓ half the height of n           (near_rect, far_rect)
    p.Levelled rank gap → boxes of rank r begin where its band starts                    (isLeast_near)
    p.Levelled rank gap → boxes of rank r end where its band ends                        (isGreatest_far)
    boxes placed in their ranks are levelled                                             (levelled_ofLayers)
    p.Levelled rank gap → (p.move v).Levelled rank gap                                   (Levelled.move)
-/

namespace Erd

/-! ## The scale across ranks -/

namespace Point

/-- The coordinate across ranks, which rises from rank to rank. -/
def downstream (d : Direction) (p : Point ℚ) : ℚ := if d.isReversed then -p.across d else p.across d

theorem downstream_shift (d : Direction) (v p : Point ℚ) :
    (p.shift v).downstream d = v.downstream d + p.downstream d := by
  cases d with
  | topToBottom => rfl
  | leftToRight => rfl
  | bottomToTop => exact neg_add v.y p.y
  | rightToLeft => exact neg_add v.x p.x

end Point

namespace Rect

/-- The side of a rectangle that comes first in a direction. -/
def near (d : Direction) (r : Rect ℚ) : ℚ :=
  match d with
  | .topToBottom => r.y
  | .bottomToTop => -r.bottom
  | .leftToRight => r.x
  | .rightToLeft => -r.right

/-- The side of a rectangle that comes last in a direction. -/
def far (d : Direction) (r : Rect ℚ) : ℚ :=
  match d with
  | .topToBottom => r.bottom
  | .bottomToTop => -r.y
  | .leftToRight => r.right
  | .rightToLeft => -r.x

/-- A point lies strictly inside a rectangle. -/
def Encloses (r : Rect ℚ) (p : Point ℚ) : Prop := r.x < p.x ∧ p.x < r.right ∧ r.y < p.y ∧ p.y < r.bottom

theorem Encloses.between {r : Rect ℚ} {p : Point ℚ} (h : r.Encloses p) (d : Direction) :
    r.near d < p.downstream d ∧ p.downstream d < r.far d := by
  obtain ⟨hleft, hright, htop, hbottom⟩ := h
  cases d with
  | topToBottom => exact ⟨htop, hbottom⟩
  | leftToRight => exact ⟨hleft, hright⟩
  | bottomToTop => exact ⟨neg_lt_neg hbottom, neg_lt_neg htop⟩
  | rightToLeft => exact ⟨neg_lt_neg hright, neg_lt_neg hleft⟩

end Rect

namespace TableBox

theorem near_rect (d : Direction) (n : TableBox ℚ) :
    n.rect.near d = n.center.downstream d - (n.size.oriented d).height / 2 := by
  cases d with
  | topToBottom =>
    show n.position.y = n.position.y + n.size.height / 2 - n.size.height / 2
    ring
  | bottomToTop =>
    show -(n.position.y + n.size.height) = -(n.position.y + n.size.height / 2) - n.size.height / 2
    ring
  | leftToRight =>
    show n.position.x = n.position.x + n.size.width / 2 - n.size.width / 2
    ring
  | rightToLeft =>
    show -(n.position.x + n.size.width) = -(n.position.x + n.size.width / 2) - n.size.width / 2
    ring

theorem far_rect (d : Direction) (n : TableBox ℚ) :
    n.rect.far d = n.center.downstream d + (n.size.oriented d).height / 2 := by
  have hwide : n.rect.far d = n.rect.near d + (n.size.oriented d).height := by
    cases d with
    | topToBottom => rfl
    | leftToRight => rfl
    | bottomToTop =>
      show -n.position.y = -(n.position.y + n.size.height) + n.size.height
      ring
    | rightToLeft =>
      show -n.position.x = -(n.position.x + n.size.width) + n.size.width
      ring
  rw [hwide, near_rect]
  ring

end TableBox

/-! ## Levels -/

/-- Where the boxes of a rank begin in a direction. -/
def nearSides (d : Direction) (nodes : List (TableBox ℚ)) (rank : Nat → Nat) (r : Nat) : Set ℚ :=
  {x | ∃ i n, nodes[i]? = some n ∧ rank i = r ∧ n.rect.near d = x}

/-- Where the boxes of a rank end in a direction. -/
def farSides (d : Direction) (nodes : List (TableBox ℚ)) (rank : Nat → Nat) (r : Nat) : Set ℚ :=
  {x | ∃ i n, nodes[i]? = some n ∧ rank i = r ∧ n.rect.far d = x}

namespace Placement

/-- Where a place across ranks is on the scale of the canvas. -/
def level (p : Placement ℚ) (across : ℚ) : ℚ :=
  ((p.frame.toCanvas Scalar.zero across).shift p.shift).downstream p.frame.direction

theorem downstream_toCanvas (p : Placement ℚ) (along across : ℚ) :
    ((p.frame.toCanvas along across).shift p.shift).downstream p.frame.direction = p.level across := by
  obtain ⟨⟨d, depth⟩, bands, shift, nodes⟩ := p
  cases d <;> rfl

theorem level_eq (p : Placement ℚ) (across : ℚ) : p.level across = p.level 0 + across := by
  obtain ⟨⟨d, depth⟩, bands, shift, nodes⟩ := p
  cases d with
  | topToBottom =>
    show shift.y + across = shift.y + 0 + across
    ring
  | bottomToTop =>
    show -(shift.y + (depth - across)) = -(shift.y + (depth - 0)) + across
    ring
  | leftToRight =>
    show shift.x + across = shift.x + 0 + across
    ring
  | rightToLeft =>
    show -(shift.x + (depth - across)) = -(shift.x + (depth - 0)) + across
    ring

theorem level_le {p : Placement ℚ} {a b : ℚ} : p.level a ≤ p.level b ↔ a ≤ b := by
  rw [p.level_eq a, p.level_eq b]
  exact add_le_add_iff_left _

/-- Bands follow each other, every box stands in the middle of the band of its rank, and every band is as thick as
one of its boxes. -/
structure Levelled (p : Placement ℚ) (rank : Nat → Nat) (gap : ℚ) : Prop where
  stacked : Stacked gap p.bands
  box : ∀ i n, p.nodes[i]? = some n → ∃ b, p.bands[rank i]? = some b ∧
    n.center.downstream p.frame.direction = p.level (b.start + b.thickness / 2) ∧
    (n.size.oriented p.frame.direction).height ≤ b.thickness
  thickest : ∀ r b, p.bands[r]? = some b → ∃ i n, p.nodes[i]? = some n ∧ rank i = r ∧
    (n.size.oriented p.frame.direction).height = b.thickness

namespace Levelled

variable {p : Placement ℚ} {rank : Nat → Nat} {gap : ℚ} {r : Nat} {b : Band ℚ}

/-- A box lies between the two sides of its band. -/
theorem sides (h : p.Levelled rank gap) (hb : p.bands[r]? = some b) {i : Nat} {n : TableBox ℚ}
    (hn : p.nodes[i]? = some n) (hr : rank i = r) :
    p.level b.start ≤ n.rect.near p.frame.direction ∧
      n.rect.far p.frame.direction ≤ p.level (b.start + b.thickness) := by
  obtain ⟨b', hb', hcenter, hheight⟩ := h.box i n hn
  rw [hr, hb] at hb'
  cases hb'
  rw [TableBox.near_rect, TableBox.far_rect, hcenter, p.level_eq (b.start + b.thickness / 2),
    p.level_eq b.start, p.level_eq (b.start + b.thickness)]
  constructor <;> linarith

/-- A box as thick as its band reaches both sides of it. -/
theorem sides_thickest (h : p.Levelled rank gap) (hb : p.bands[r]? = some b) : ∃ i n, p.nodes[i]? = some n ∧
    rank i = r ∧ n.rect.near p.frame.direction = p.level b.start ∧
      n.rect.far p.frame.direction = p.level (b.start + b.thickness) := by
  obtain ⟨i, n, hn, hr, hheight⟩ := h.thickest r b hb
  obtain ⟨b', hb', hcenter, -⟩ := h.box i n hn
  rw [hr, hb] at hb'
  cases hb'
  refine ⟨i, n, hn, hr, ?_, ?_⟩
  · rw [TableBox.near_rect, hcenter, hheight, p.level_eq, p.level_eq b.start]
    ring
  · rw [TableBox.far_rect, hcenter, hheight, p.level_eq, p.level_eq (b.start + b.thickness)]
    ring

theorem isLeast_near (h : p.Levelled rank gap) (hb : p.bands[r]? = some b) :
    IsLeast (nearSides p.frame.direction p.nodes rank r) (p.level b.start) := by
  constructor
  · obtain ⟨i, n, hn, hr, hnear, -⟩ := h.sides_thickest hb
    exact ⟨i, n, hn, hr, hnear⟩
  · rintro _ ⟨i, n, hn, hr, rfl⟩
    exact (h.sides hb hn hr).1

theorem isGreatest_far (h : p.Levelled rank gap) (hb : p.bands[r]? = some b) :
    IsGreatest (farSides p.frame.direction p.nodes rank r) (p.level (b.start + b.thickness)) := by
  constructor
  · obtain ⟨i, n, hn, hr, -, hfar⟩ := h.sides_thickest hb
    exact ⟨i, n, hn, hr, hfar⟩
  · rintro _ ⟨i, n, hn, hr, rfl⟩
    exact (h.sides hb hn hr).2

end Levelled

/-! ## Moved drawings -/

/-- A placement with everything in it moved by one vector. -/
def move (v : Point ℚ) (p : Placement ℚ) : Placement ℚ :=
  { p with shift := p.shift.shift v, nodes := p.nodes.map (·.shift v) }

theorem bands_move (v : Point ℚ) (p : Placement ℚ) : (p.move v).bands = p.bands := rfl

theorem toCanvas_move (v : Point ℚ) (p : Placement ℚ) (across : ℚ) :
    (p.frame.toCanvas Scalar.zero across).shift (p.move v).shift =
      ((p.frame.toCanvas Scalar.zero across).shift p.shift).shift v :=
  (Point.mk.injEq ..).mpr ⟨add_assoc v.x _ _, add_assoc v.y _ _⟩

theorem level_move (v : Point ℚ) (p : Placement ℚ) (across : ℚ) :
    (p.move v).level across = v.downstream p.frame.direction + p.level across := by
  unfold level
  rw [← Point.downstream_shift, ← toCanvas_move]
  rfl

theorem Levelled.move {p : Placement ℚ} {rank : Nat → Nat} {gap : ℚ} (h : p.Levelled rank gap) (v : Point ℚ) :
    (p.move v).Levelled rank gap where
  stacked := h.stacked
  box i n hn := by
    obtain ⟨n, hnode, rfl⟩ := Option.map_eq_some_iff.1 (List.getElem?_map.symm.trans hn)
    obtain ⟨b, hb, hcenter, hheight⟩ := h.box i n hnode
    refine ⟨b, hb, ?_, hheight⟩
    rw [TableBox.center_shift, level_move, ← hcenter]
    exact Point.downstream_shift ..
  thickest r b hb := by
    obtain ⟨i, n, hn, hr, hheight⟩ := h.thickest r b hb
    exact ⟨i, n.shift v, List.getElem?_map.trans (congrArg _ hn), hr, hheight⟩

/-! ## Levels of ranks -/

section
variable {o : LayoutOptions ℚ} {nodes : List (TableBox ℚ)} {layers : List (List Nat)} {rank : Nat → Nat}

theorem height_oriented_nonneg {n : TableBox ℚ} (h : 0 ≤ n.size.width ∧ 0 ≤ n.size.height) (d : Direction) :
    0 ≤ (n.size.oriented d).height := by
  unfold Size.oriented
  split
  · exact h.1
  · exact h.2

/-- Boxes placed in their ranks stand in the bands of these. -/
theorem levelled_ofLayers (hlayers : Fills nodes.length rank layers)
    (h : ∀ n ∈ nodes, 0 ≤ n.size.width ∧ 0 ≤ n.size.height) (hn : 0 ≤ o.nodeSpacing) (hr : 0 ≤ o.rankSpacing) :
    (ofLayers o layers nodes).Levelled rank o.rankSpacing := by
  have hm := sized_rowMetrics (o := o) h hn hr
  refine ⟨RowMetrics.stacked_bands hm layers, fun i n hi => ?_, fun r b hb => ?_⟩
  · rw [getElem_ofLayers] at hi
    obtain ⟨n₀, hnode, rfl⟩ := Option.map_eq_some_iff.1 hi
    have hlt : i < nodes.length := (List.getElem?_eq_some_iff.1 hnode).1
    obtain ⟨layer, hlayer, hmem⟩ := hlayers.exists_layer hlt
    have hflat : i ∈ layers.flatten := List.mem_flatten.2 ⟨layer, List.mem_of_getElem? hlayer, hmem⟩
    obtain ⟨c, hc, hcenter⟩ := exists_center o nodes hflat
    obtain ⟨k, b, along, hb, hbox, hpoint⟩ := RowMetrics.mem_centers hm hcenter
    have hrank := ((hlayers.mem k b.nodes ((rowMetrics o nodes).nodes_bands hb) i).1 hbox).2
    refine ⟨b, hrank ▸ hb, ?_, ?_⟩
    · rw [hc, Option.getD_some, TableBox.center_shift, TableBox.center_centerAt, show c = _ from hpoint]
      exact downstream_toCanvas ..
    · have hheight := (rowMetrics o nodes).height_le_thickness hbox
      rw [size_rowMetrics o hnode] at hheight
      rw [(RowMetrics.mem_bandsFrom hm (List.mem_of_getElem? hb)).1]
      exact hheight
  · have hlayer := (rowMetrics o nodes).nodes_bands hb
    have hne : b.nodes ≠ [] := fun hnil => hlayers.inhabited (hnil ▸ List.mem_of_getElem? hlayer)
    have hnode {i : Nat} (hi : i ∈ b.nodes) : ∃ n, nodes[i]? = some n ∧
        (rowMetrics o nodes).size i = n.size.oriented o.direction := by
      have hlt := ((hlayers.mem r b.nodes hlayer i).1 hi).1
      exact ⟨nodes[i], List.getElem?_eq_getElem hlt, size_rowMetrics o (List.getElem?_eq_getElem hlt)⟩
    obtain ⟨i, hi, hthick⟩ := RowMetrics.exists_thickest (rowMetrics o nodes) hne fun i hi => by
      obtain ⟨n, hn, hsize⟩ := hnode hi
      rw [hsize]
      exact height_oriented_nonneg (h n (List.mem_of_getElem? hn)) _
    obtain ⟨n, hn, hsize⟩ := hnode hi
    have hplaced := getElem_ofLayers o layers nodes i
    rw [hn, Option.map_some] at hplaced
    refine ⟨i, _, hplaced, ((hlayers.mem r b.nodes hlayer i).1 hi).2, ?_⟩
    rw [(RowMetrics.mem_bandsFrom hm (List.mem_of_getElem? hb)).1, ← hthick, hsize]
    rfl

end

end Placement

end Erd

import Erd.Proofs.Geometry.Hull
import Mathlib.Algebra.Order.Field.Basic
import Mathlib.Order.Interval.Set.LinearOrder
import Mathlib.Order.Lattice

/-!
# Rectangles as regions of the canvas

A rectangle that has a width and a height is known by the points between its sides.  What is computed from corners
and sizes is true of these points: two rectangles intersect exactly if there is a point inside both, and of all
rectangles with the points of both their union has the fewest.  Ordered by their sides, rectangles form a
semilattice, and a hull is the join of its parts in whatever order they come.

    a.intersects b = true ↔ (a.interior ∩ b.interior).Nonempty                           (intersects_iff)
    a.region ⊆ r.region ↔ a ≤ r                                                       (region_subset_iff)
    a.IsUnion b r ↔ r = a.union b                                                          (isUnion_iff)
    rs.Perm rs' → hull? rs = hull? rs'                                                       (hull_perm)
-/

namespace Erd.Rect

/-! ## Definitions -/

/-- Neither the width nor the height is zero or negative. -/
structure Proper (r : Rect ℚ) : Prop where
  width : 0 < r.width
  height : 0 < r.height

/-- The points between the sides, those on the sides among them. -/
def region (r : Rect ℚ) : Set (Point ℚ) := {p | p.x ∈ Set.Icc r.x r.right ∧ p.y ∈ Set.Icc r.y r.bottom}

/-- The points strictly between the sides. -/
def interior (r : Rect ℚ) : Set (Point ℚ) := {p | p.x ∈ Set.Ioo r.x r.right ∧ p.y ∈ Set.Ioo r.y r.bottom}

/-- A side of one is in line with the facing side of the other. -/
def Touches (a b : Rect ℚ) : Prop := a.right = b.x ∨ b.right = a.x ∨ a.bottom = b.y ∨ b.bottom = a.y

/-- `r` contains `a` and `b`, and every rectangle that contains both contains `r`. -/
structure IsUnion (a b r : Rect ℚ) : Prop where
  proper : r.Proper
  left : a.region ⊆ r.region
  right : b.region ⊆ r.region
  least : ∀ q : Rect ℚ, a.region ⊆ q.region → b.region ⊆ q.region → r.region ⊆ q.region

variable {a b r : Rect ℚ}

/-! ## Common points -/

theorem intersects_comm (a b : Rect ℚ) : a.intersects b = b.intersects a := by
  rw [Bool.eq_iff_iff, intersects_eq_true, intersects_eq_true, and_comm (a := a.x < b.right),
    and_comm (a := a.y < b.bottom)]

theorem Touches.intersects_eq_false (h : a.Touches b) : a.intersects b = false := by
  rw [← Bool.not_eq_true, intersects_eq_true]
  rintro ⟨⟨hleft, hright⟩, htop, hbottom⟩
  rcases h with h | h | h | h
  · exact hright.ne' h
  · exact hleft.ne' h
  · exact hbottom.ne' h
  · exact htop.ne' h

theorem Proper.x_lt_right (h : r.Proper) : r.x < r.right := lt_add_of_pos_right _ h.width

theorem Proper.y_lt_bottom (h : r.Proper) : r.y < r.bottom := lt_add_of_pos_right _ h.height

/-- Two intervals with inner points have one in common if each begins before the other one ends. -/
theorem nonempty_Ioo_inter {s t u v : ℚ} (hst : s < t) (huv : u < v) :
    (Set.Ioo s t ∩ Set.Ioo u v).Nonempty ↔ s < v ∧ u < t := by
  rw [Set.Ioo_inter_Ioo, Set.nonempty_Ioo, max_lt_iff, lt_min_iff, lt_min_iff]
  exact ⟨fun ⟨⟨_, hsv⟩, hut, _⟩ => ⟨hsv, hut⟩, fun ⟨hsv, hut⟩ => ⟨⟨hst, hsv⟩, hut, huv⟩⟩

/-- The coordinates of a common point are found one by one. -/
theorem nonempty_interior_inter :
    (a.interior ∩ b.interior).Nonempty ↔
      (Set.Ioo a.x a.right ∩ Set.Ioo b.x b.right).Nonempty ∧
        (Set.Ioo a.y a.bottom ∩ Set.Ioo b.y b.bottom).Nonempty := by
  constructor
  · rintro ⟨p, ⟨hax, hay⟩, hbx, hby⟩
    exact ⟨⟨p.x, hax, hbx⟩, ⟨p.y, hay, hby⟩⟩
  · rintro ⟨⟨x, hax, hbx⟩, ⟨y, hay, hby⟩⟩
    exact ⟨⟨x, y⟩, ⟨hax, hay⟩, hbx, hby⟩

theorem intersects_iff (ha : a.Proper) (hb : b.Proper) :
    a.intersects b = true ↔ (a.interior ∩ b.interior).Nonempty := by
  rw [nonempty_interior_inter, nonempty_Ioo_inter ha.x_lt_right hb.x_lt_right,
    nonempty_Ioo_inter ha.y_lt_bottom hb.y_lt_bottom, intersects_eq_true]

/-! ## The order of containment -/

instance : PartialOrder (Rect ℚ) where
  le := Within
  le_refl _ := ⟨le_rfl, le_rfl, le_rfl, le_rfl⟩
  le_trans _ _ _ h h' :=
    ⟨h'.left.trans h.left, h'.top.trans h.top, h.right.trans h'.right, h.bottom.trans h'.bottom⟩
  le_antisymm _ _ h h' :=
    ext_sides (h'.left.antisymm h.left) (h'.top.antisymm h.top) (h.right.antisymm h'.right)
      (h.bottom.antisymm h'.bottom)

instance : SemilatticeSup (Rect ℚ) where
  sup := union
  le_sup_left a b :=
    { left := (x_union a b).trans_le (min_le_left _ _)
      top := (y_union a b).trans_le (min_le_left _ _)
      right := (le_max_left _ _).trans_eq (right_union a b).symm
      bottom := (le_max_left _ _).trans_eq (bottom_union a b).symm }
  le_sup_right a b :=
    { left := (x_union a b).trans_le (min_le_right _ _)
      top := (y_union a b).trans_le (min_le_right _ _)
      right := (le_max_right _ _).trans_eq (right_union a b).symm
      bottom := (le_max_right _ _).trans_eq (bottom_union a b).symm }
  sup_le a b _ h h' :=
    { left := (le_min h.left h'.left).trans_eq (x_union a b).symm
      top := (le_min h.top h'.top).trans_eq (y_union a b).symm
      right := (right_union a b).trans_le (max_le h.right h'.right)
      bottom := (bottom_union a b).trans_le (max_le h.bottom h'.bottom) }

theorem sup_eq_union (a b : Rect ℚ) : a ⊔ b = a.union b := rfl

/-- The order of the sides is that of the points. -/
theorem region_subset_iff (ha : a.Proper) : a.region ⊆ r.region ↔ a ≤ r := by
  constructor
  · intro h
    -- Two opposite corners tell where all sides are.
    have hupper : (⟨a.x, a.y⟩ : Point ℚ) ∈ a.region :=
      ⟨⟨le_rfl, ha.x_lt_right.le⟩, le_rfl, ha.y_lt_bottom.le⟩
    have hlower : (⟨a.right, a.bottom⟩ : Point ℚ) ∈ a.region :=
      ⟨⟨ha.x_lt_right.le, le_rfl⟩, ha.y_lt_bottom.le, le_rfl⟩
    exact ⟨(h hupper).1.1, (h hupper).2.1, (h hlower).1.2, (h hlower).2.2⟩
  · rintro ⟨hleft, htop, hright, hbottom⟩ p ⟨hx, hy⟩
    exact ⟨Set.Icc_subset_Icc hleft hright hx, Set.Icc_subset_Icc htop hbottom hy⟩

/-! ## Unions -/

/-- What contains a proper rectangle is proper. -/
theorem Proper.mono (ha : a.Proper) (h : a ≤ r) : r.Proper where
  width := (lt_add_iff_pos_right _).1 (h.left.trans_lt (ha.x_lt_right.trans_le h.right))
  height := (lt_add_iff_pos_right _).1 (h.top.trans_lt (ha.y_lt_bottom.trans_le h.bottom))

theorem Proper.union (ha : a.Proper) (b : Rect ℚ) : (a.union b).Proper := ha.mono le_sup_left

theorem isUnion_union (ha : a.Proper) (hb : b.Proper) : a.IsUnion b (a.union b) where
  proper := ha.union b
  left := (region_subset_iff ha).2 le_sup_left
  right := (region_subset_iff hb).2 le_sup_right
  least _ h h' := (region_subset_iff (ha.union b)).2 (sup_le ((region_subset_iff ha).1 h) ((region_subset_iff hb).1 h'))

theorem isUnion_iff (ha : a.Proper) (hb : b.Proper) : a.IsUnion b r ↔ r = a.union b := by
  constructor
  · intro h
    have hunion := isUnion_union ha hb
    have hle : r ≤ a.union b := (region_subset_iff h.proper).1 (h.least _ hunion.left hunion.right)
    have hge : a.union b ≤ r := (region_subset_iff hunion.proper).1 (hunion.least _ h.left h.right)
    exact hle.antisymm hge
  · rintro rfl
    exact isUnion_union ha hb

/-! ## Hulls -/

/-- Rectangles that are joined to `r` one by one are in the end within `q` if all of them are. -/
theorem foldl_union_le {q : Rect ℚ} (rs : List (Rect ℚ)) : rs.foldl union r ≤ q ↔ ∀ p ∈ r :: rs, p ≤ q := by
  induction rs generalizing r with
  | nil => rw [List.foldl_nil, List.forall_mem_singleton]
  | cons p rs ih =>
    rw [List.foldl_cons, ih, List.forall_mem_cons, List.forall_mem_cons, List.forall_mem_cons, ← sup_eq_union,
      sup_le_iff, and_assoc]

/-- A hull does not depend on the order of its parts. -/
theorem hull_perm {rs rs' : List (Rect ℚ)} (h : rs.Perm rs') : hull? rs = hull? rs' := by
  cases rs with
  | nil => rw [h.nil_eq]
  | cons p rs =>
    cases rs' with
    | nil => exact absurd h.eq_nil (List.cons_ne_nil p rs)
    | cons p' rs' =>
      refine congrArg some (eq_of_forall_ge_iff fun q => ?_)
      rw [foldl_union_le, foldl_union_le]
      exact forall_congr' fun _ => imp_congr_left h.mem_iff

end Erd.Rect

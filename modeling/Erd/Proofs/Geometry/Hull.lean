import Erd.Proofs.Geometry.Exact
import Mathlib.Algebra.Order.Group.MinMax
import Mathlib.Data.List.Induction
import Mathlib.Order.Bounds.Basic

/-!
# Hulls of rectangles

A rectangle is stored as a corner and a size, but a hull is a matter of sides: on exact numbers its left and
upper side are the least among those of its rectangles, its right and lower side the greatest, and it is the
only rectangle of which this is true.  No size need be positive for it.

    hull? rs = some r → (r.expand side top foot).Surrounds {q | q ∈ rs} side top foot         (surrounds_hull)
    r.Surrounds s side top foot → r'.Surrounds s side top foot → r = r'                     (Surrounds.unique)
-/

namespace Erd.Rect

/-! ## Sides -/

/-- No side of `q` is beyond the same side of `r`. -/
structure Within (q r : Rect ℚ) : Prop where
  left : r.x ≤ q.x
  top : r.y ≤ q.y
  right : q.right ≤ r.right
  bottom : q.bottom ≤ r.bottom

/-- The sides of `r` are the outermost of the sides of the rectangles of `s`, each moved outwards: the left and
the right one by `side`, the upper one by `top` and the lower one by `foot`. -/
structure Surrounds (r : Rect ℚ) (s : Set (Rect ℚ)) (side top foot : ℚ) : Prop where
  left : IsLeast ((fun q => q.x - side) '' s) r.x
  top : IsLeast ((fun q => q.y - top) '' s) r.y
  right : IsGreatest ((fun q => q.right + side) '' s) r.right
  bottom : IsGreatest ((fun q => q.bottom + foot) '' s) r.bottom

theorem ext_sides {q r : Rect ℚ} (hleft : q.x = r.x) (htop : q.y = r.y) (hright : q.right = r.right)
    (hbottom : q.bottom = r.bottom) : q = r := by
  unfold right at hright
  unfold bottom at hbottom
  rw [hleft, add_right_inj] at hright
  rw [htop, add_right_inj] at hbottom
  exact (Rect.mk.injEq ..).mpr ⟨hleft, htop, hright, hbottom⟩

theorem x_union (q r : Rect ℚ) : (q.union r).x = min q.x r.x := Scalar.smaller_eq q.x r.x

theorem y_union (q r : Rect ℚ) : (q.union r).y = min q.y r.y := Scalar.smaller_eq q.y r.y

theorem right_union (q r : Rect ℚ) : (q.union r).right = max q.right r.right := by
  rw [← Scalar.larger_eq]
  exact add_sub_cancel _ _

theorem bottom_union (q r : Rect ℚ) : (q.union r).bottom = max q.bottom r.bottom := by
  rw [← Scalar.larger_eq]
  exact add_sub_cancel _ _

theorem right_expand (r : Rect ℚ) (side top foot : ℚ) : (r.expand side top foot).right = r.right + side := by
  show r.x - side + (r.width + side * 2) = r.x + r.width + side
  ring

theorem bottom_expand (r : Rect ℚ) (side top foot : ℚ) : (r.expand side top foot).bottom = r.bottom + foot := by
  show r.y - top + (r.height + top + foot) = r.y + r.height + foot
  ring

/-! ## Hulls -/

variable {s : Set (Rect ℚ)} {r r' : Rect ℚ} {side top foot : ℚ}

theorem surrounds_singleton (r : Rect ℚ) (side top foot : ℚ) :
    (r.expand side top foot).Surrounds {r} side top foot := by
  constructor <;> rw [Set.image_singleton]
  · exact isLeast_singleton
  · exact isLeast_singleton
  · rw [right_expand]
    exact isGreatest_singleton
  · rw [bottom_expand]
    exact isGreatest_singleton

/-- One more rectangle for a hull. -/
theorem Surrounds.union (h : (r.expand side top foot).Surrounds s side top foot) (q : Rect ℚ) :
    ((r.union q).expand side top foot).Surrounds (insert q s) side top foot := by
  have hleft : ((r.union q).expand side top foot).x = min (q.x - side) (r.x - side) := by
    rw [min_sub_sub_right, min_comm, ← x_union]
    rfl
  have htop : ((r.union q).expand side top foot).y = min (q.y - top) (r.y - top) := by
    rw [min_sub_sub_right, min_comm, ← y_union]
    rfl
  have hright : ((r.union q).expand side top foot).right = max (q.right + side) (r.expand side top foot).right := by
    rw [right_expand, right_expand, right_union, max_add_add_right, max_comm]
  have hbottom :
      ((r.union q).expand side top foot).bottom = max (q.bottom + foot) (r.expand side top foot).bottom := by
    rw [bottom_expand, bottom_expand, bottom_union, max_add_add_right, max_comm]
  constructor <;> rw [Set.image_insert_eq]
  · exact hleft ▸ h.left.insert _
  · exact htop ▸ h.top.insert _
  · exact hright ▸ h.right.insert _
  · exact hbottom ▸ h.bottom.insert _

theorem surrounds_foldl (r : Rect ℚ) (rs : List (Rect ℚ)) (side top foot : ℚ) :
    ((rs.foldl Rect.union r).expand side top foot).Surrounds {q | q ∈ r :: rs} side top foot := by
  induction rs using List.reverseRecOn with
  | nil =>
    rw [show {q | q ∈ [r]} = {r} from Set.ext fun q => List.mem_singleton]
    exact surrounds_singleton r side top foot
  | append_singleton rs q ih =>
    have hset : {p | p ∈ r :: (rs ++ [q])} = insert q {p | p ∈ r :: rs} := by
      ext p
      simp only [Set.mem_ofPred_eq, Set.mem_insert_iff, ← List.cons_append, List.mem_append, List.mem_singleton]
      exact or_comm
    rw [hset, List.foldl_append]
    exact ih.union q

/-- A hull that is grown. -/
theorem surrounds_hull {rs : List (Rect ℚ)} (h : hull? rs = some r) (side top foot : ℚ) :
    (r.expand side top foot).Surrounds {q | q ∈ rs} side top foot := by
  cases rs with
  | nil => cases h
  | cons q rs =>
    obtain rfl := Option.some.inj h
    exact surrounds_foldl q rs side top foot

theorem Surrounds.unique (h : r.Surrounds s side top foot) (h' : r'.Surrounds s side top foot) : r = r' :=
  ext_sides (h.left.unique h'.left) (h.top.unique h'.top) (h.right.unique h'.right) (h.bottom.unique h'.bottom)

/-- What is surrounded lies within, unless it is shrunk. -/
theorem Surrounds.within (h : r.Surrounds s side top foot) (hside : 0 ≤ side) (htop : 0 ≤ top) (hfoot : 0 ≤ foot)
    {q : Rect ℚ} (hq : q ∈ s) : q.Within r where
  left := (h.left.2 (Set.mem_image_of_mem _ hq)).trans (sub_le_self _ hside)
  top := (h.top.2 (Set.mem_image_of_mem _ hq)).trans (sub_le_self _ htop)
  right := (le_add_of_nonneg_right hside).trans (h.right.2 (Set.mem_image_of_mem _ hq))
  bottom := (le_add_of_nonneg_right hfoot).trans (h.bottom.2 (Set.mem_image_of_mem _ hq))

end Erd.Rect

import Erd.Diagram.Basic
import Mathlib.Algebra.Order.Field.Rat
import Mathlib.Tactic.Linarith
import Mathlib.Tactic.Ring

/-!
# Geometry on exact numbers

Read on rational numbers, the operations of a drawing are those of arithmetic, and two boxes have no inner
point in common exactly if their centres are far enough from each other along one of the axes.

    Scalar.larger a b = max a b                                                  (larger_eq)
    a.rect.intersects b.rect = false ↔ a.Apart b                           (intersects_eq_false)
    (a.shift v).Apart (b.shift v) ↔ a.Apart b                                   (apart_shift)
-/

namespace Erd

/-! ## Rational numbers as coordinates -/

instance : Scalar ℚ where
  ofNat n := n
  less a b := a < b
  same a b := a = b
  finite _ := true
  sortLe a b := a ≤ b
  sortLe_trans _ _ _ h h' := decide_eq_true ((of_decide_eq_true h).trans (of_decide_eq_true h'))
  sortLe_total a b := by simpa using le_total a b
  sortLe_of_less _ _ h := decide_eq_false (not_le.2 (of_decide_eq_true h))

namespace Scalar

@[simp] theorem ofNat_eq (n : Nat) : (ofNat n : ℚ) = n := rfl

@[simp] theorem less_eq (a b : ℚ) : less a b = decide (a < b) := rfl

@[simp] theorem same_eq (a b : ℚ) : same a b = decide (a = b) := rfl

@[simp] theorem finite_eq (a : ℚ) : finite a = true := rfl

@[simp] theorem zero_eq : (zero : ℚ) = 0 := rfl

@[simp] theorem half_eq (a : ℚ) : half a = a / 2 := rfl

theorem larger_eq (a b : ℚ) : larger a b = max a b := by
  unfold larger
  simp only [less_eq, same_eq, decide_true, if_true, decide_eq_true_eq]
  rcases lt_or_ge a b with h | h
  · rw [if_pos h, max_eq_right h.le]
  · rw [if_neg (not_lt.2 h), max_eq_left h]

theorem smaller_eq (a b : ℚ) : smaller a b = min a b := by
  unfold smaller
  simp only [less_eq, same_eq, decide_true, if_true, decide_eq_true_eq]
  rcases lt_or_ge b a with h | h
  · rw [if_pos h, min_eq_right h.le]
  · rw [if_neg (not_lt.2 h), min_eq_left h]

theorem clamp_nonneg (a : ℚ) : 0 ≤ clamp a := by
  unfold clamp
  simp only [finite_eq, less_eq, zero_eq, Bool.true_and, decide_eq_true_eq]
  split
  · next h => exact h.le
  · exact le_refl 0

end Scalar

theorem Rect.intersects_eq_true {a b : Rect ℚ} :
    a.intersects b = true ↔ (a.x < b.right ∧ b.x < a.right) ∧ a.y < b.bottom ∧ b.y < a.bottom := by
  simp only [intersects, Scalar.less_eq, Bool.and_eq_true, decide_eq_true_eq, and_assoc]

/-! ## Boxes that keep clear of each other -/

/-- Boxes of two sizes around two centres have no inner point in common. -/
def Size.Apart (s t : Size ℚ) (p q : Point ℚ) : Prop :=
  (s.width + t.width) / 2 ≤ |p.x - q.x| ∨ (s.height + t.height) / 2 ≤ |p.y - q.y|

theorem Size.Apart.symm {s t : Size ℚ} {p q : Point ℚ} (h : s.Apart t p q) : t.Apart s q p := by
  unfold Apart at h ⊢
  rwa [add_comm t.width, add_comm t.height, abs_sub_comm q.x, abs_sub_comm q.y]

namespace TableBox

variable {a b : TableBox ℚ}

def Apart (a b : TableBox ℚ) : Prop := a.size.Apart b.size a.center b.center

theorem Apart.symm (h : a.Apart b) : b.Apart a := Size.Apart.symm h

/-- Two intervals overlap exactly if their middles are nearer than half their lengths. -/
theorem overlap_iff (x y w v : ℚ) :
    x < y + v ∧ y < x + w ↔ |x + w / 2 - (y + v / 2)| < (w + v) / 2 := by
  rw [abs_lt]
  constructor
  · rintro ⟨h₁, h₂⟩
    constructor <;> linarith
  · rintro ⟨h₁, h₂⟩
    constructor <;> linarith

theorem intersects_eq_false : a.rect.intersects b.rect = false ↔ a.Apart b := by
  have hx := overlap_iff a.position.x b.position.x a.size.width b.size.width
  have hy := overlap_iff a.position.y b.position.y a.size.height b.size.height
  have hi : a.rect.intersects b.rect = true ↔
      (a.position.x < b.position.x + b.size.width ∧ b.position.x < a.position.x + a.size.width) ∧
        (a.position.y < b.position.y + b.size.height ∧ b.position.y < a.position.y + a.size.height) :=
    Rect.intersects_eq_true
  rw [← Bool.not_eq_true, hi, hx, hy, not_and_or, not_lt, not_lt]
  rfl

@[simp] theorem size_shift (v : Point ℚ) (n : TableBox ℚ) : (n.shift v).size = n.size := rfl

theorem center_shift (v : Point ℚ) (n : TableBox ℚ) : (n.shift v).center = n.center.shift v := by
  have hx : v.x + n.position.x + n.size.width / 2 = v.x + (n.position.x + n.size.width / 2) := by ring
  have hy : v.y + n.position.y + n.size.height / 2 = v.y + (n.position.y + n.size.height / 2) := by ring
  exact (Point.mk.injEq _ _ _ _).mpr ⟨hx, hy⟩

/-- Boxes that move together stay apart. -/
theorem apart_shift (v : Point ℚ) : (a.shift v).Apart (b.shift v) ↔ a.Apart b := by
  have hx : v.x + a.center.x - (v.x + b.center.x) = a.center.x - b.center.x := by ring
  have hy : v.y + a.center.y - (v.y + b.center.y) = a.center.y - b.center.y := by ring
  unfold Apart Size.Apart
  rw [center_shift, center_shift, size_shift, size_shift, ← hx, ← hy]
  rfl

end TableBox

end Erd

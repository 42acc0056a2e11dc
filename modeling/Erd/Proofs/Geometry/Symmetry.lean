import Erd.Layering.Placement
import Erd.Proofs.Geometry.Exact

/-!
# Symmetries of the canvas

A symmetry moves points and takes a rectangle around one point to a rectangle around its image.  There are
reflections across an axis, and the exchange of the axes, each with a translation behind it.

    ((σ.point p).y, (σ.rect r).y) = (k - p.y, k - r.bottom)  for  σ = .mirror .y k
    ((σ.point p).x, (σ.rect r).x) = (p.y + v.x, r.y + v.x)   for  σ = .transpose v
    σ.box (n.centerAt p) = (σ.resize n).centerAt (σ.point p)                      (box_centerAt)
    σ.Moves v v' σ' → (σ.box n).shift v' = σ'.box (n.shift v)                        (shift_box)
-/

namespace Erd

/-! ## Axes -/

inductive Axis where
  | x
  | y
deriving DecidableEq

def Axis.other : Axis → Axis
  | x => y
  | y => x

namespace Point

variable {α : Type}

/-- The coordinate on an axis. -/
def on (a : Axis) (p : Point α) : α :=
  match a with
  | .x => p.x
  | .y => p.y

theorem ext_on {a : Axis} {p q : Point α} (h : p.on a = q.on a) (hother : p.on a.other = q.on a.other) : p = q := by
  obtain ⟨x, y⟩ := p
  obtain ⟨x', y'⟩ := q
  cases a with
  | x =>
    cases (show x = x' from h)
    cases (show y = y' from hother)
    rfl
  | y =>
    cases (show y = y' from h)
    cases (show x = x' from hother)
    rfl

theorem on_shift [Scalar α] (a : Axis) (v p : Point α) : (p.shift v).on a = v.on a + p.on a := by
  cases a <;> rfl

end Point

/-! ## Rectangles around points -/

/-- The rectangle of a size around a point. -/
def Rect.around (p : Point ℚ) (s : Size ℚ) : Rect ℚ :=
  ⟨p.x - s.width / 2, p.y - s.height / 2, s.width, s.height⟩

namespace TableBox

/-- The box with another rectangle. -/
def fill (r : Rect ℚ) (n : TableBox ℚ) : TableBox ℚ := { n with position := ⟨r.x, r.y⟩, size := ⟨r.width, r.height⟩ }

theorem rect_eq_around (n : TableBox ℚ) : n.rect = Rect.around n.center n.size := by
  have hx : n.position.x = n.position.x + n.size.width / 2 - n.size.width / 2 := by ring
  have hy : n.position.y = n.position.y + n.size.height / 2 - n.size.height / 2 := by ring
  exact (Rect.mk.injEq ..).mpr ⟨hx, hy, rfl, rfl⟩

theorem center_fill_around (p : Point ℚ) (s : Size ℚ) (n : TableBox ℚ) : (n.fill (.around p s)).center = p := by
  have hx : p.x - s.width / 2 + s.width / 2 = p.x := by ring
  have hy : p.y - s.height / 2 + s.height / 2 = p.y := by ring
  exact (Point.mk.injEq ..).mpr ⟨hx, hy⟩

theorem shift_fill_around (v p : Point ℚ) (s : Size ℚ) (n : TableBox ℚ) :
    (n.fill (.around p s)).shift v = n.fill (.around (p.shift v) s) := by
  have hx : v.x + (p.x - s.width / 2) = v.x + p.x - s.width / 2 := by ring
  have hy : v.y + (p.y - s.height / 2) = v.y + p.y - s.height / 2 := by ring
  have hr : (⟨v.x + (p.x - s.width / 2), v.y + (p.y - s.height / 2), s.width, s.height⟩ : Rect ℚ) =
      .around (p.shift v) s := (Rect.mk.injEq ..).mpr ⟨hx, hy, rfl, rfl⟩
  exact congrArg n.fill hr

end TableBox

/-! ## Symmetries -/

/-- A map of the canvas on points, sizes and rectangles. -/
structure Symmetry where
  point : Point ℚ → Point ℚ
  size : Size ℚ → Size ℚ
  rect : Rect ℚ → Rect ℚ
  rect_around : ∀ p s, rect (.around p s) = .around (point p) (size s)

namespace Symmetry

/-- The reflection that takes the coordinate `t` on an axis to `k - t`. -/
def mirror (a : Axis) (k : ℚ) : Symmetry where
  point p :=
    match a with
    | .x => ⟨k - p.x, p.y⟩
    | .y => ⟨p.x, k - p.y⟩
  size := id
  rect r :=
    match a with
    | .x => ⟨k - r.right, r.y, r.width, r.height⟩
    | .y => ⟨r.x, k - r.bottom, r.width, r.height⟩
  rect_around p s := by
    cases a with
    | x =>
      have hx : k - (p.x - s.width / 2 + s.width) = k - p.x - s.width / 2 := by ring
      exact (Rect.mk.injEq ..).mpr ⟨hx, rfl, rfl, rfl⟩
    | y =>
      have hy : k - (p.y - s.height / 2 + s.height) = k - p.y - s.height / 2 := by ring
      exact (Rect.mk.injEq ..).mpr ⟨rfl, hy, rfl, rfl⟩

/-- The exchange of the axes with a translation behind it. -/
def transpose (v : Point ℚ) : Symmetry where
  point p := ⟨p.y + v.x, p.x + v.y⟩
  size s := ⟨s.height, s.width⟩
  rect r := ⟨r.y + v.x, r.x + v.y, r.height, r.width⟩
  rect_around p s := by
    have hx : p.y - s.height / 2 + v.x = p.y + v.x - s.height / 2 := by ring
    have hy : p.x - s.width / 2 + v.y = p.x + v.y - s.width / 2 := by ring
    exact (Rect.mk.injEq ..).mpr ⟨hx, hy, rfl, rfl⟩

section
variable {a : Axis} {k : ℚ} (p : Point ℚ)

theorem on_mirror : ((mirror a k).point p).on a = k - p.on a := by
  cases a <;> rfl

theorem on_other_mirror : ((mirror a k).point p).on a.other = p.on a.other := by
  cases a <;> rfl

end

/-! ## Boxes -/

variable (σ : Symmetry)

/-- The box in the image of its rectangle. -/
def box (n : TableBox ℚ) : TableBox ℚ := n.fill (σ.rect n.rect)

/-- The box with its size as the symmetry leaves it, in its place. -/
def resize (n : TableBox ℚ) : TableBox ℚ := { n with size := σ.size n.size }

theorem box_eq (n : TableBox ℚ) : σ.box n = n.fill (.around (σ.point n.center) (σ.size n.size)) := by
  unfold box
  rw [n.rect_eq_around, σ.rect_around]

/-- Boxes around a point and around its image. -/
theorem box_centerAt (n : TableBox ℚ) (p : Point ℚ) : σ.box (n.centerAt p) = (σ.resize n).centerAt (σ.point p) := by
  have hrect : σ.rect (n.centerAt p).rect = .around (σ.point p) (σ.size n.size) := σ.rect_around p n.size
  exact congrArg n.fill hrect

theorem center_box (n : TableBox ℚ) : (σ.box n).center = σ.point n.center := by
  rw [box_eq, TableBox.center_fill_around]

/-- A reflected box keeps its place on the other axis. -/
theorem position_mirror (a : Axis) (k : ℚ) (n : TableBox ℚ) :
    ((mirror a k).box n).position.on a.other = n.position.on a.other := by
  cases a <;> rfl

/-! ## Translations -/

variable {σ}

/-- What one symmetry relates, another one relates when both sides are moved. -/
structure Moves (σ : Symmetry) (v v' : Point ℚ) (σ' : Symmetry) : Prop where
  size : ∀ s, σ'.size s = σ.size s
  point : ∀ p, (σ.point p).shift v' = σ'.point (p.shift v)

/-- Reflected points are reflected after moves that are equal on the other axis. -/
theorem mirror_moves {a : Axis} {v v' : Point ℚ} (h : v'.on a.other = v.on a.other) (k : ℚ) :
    (mirror a k).Moves v v' (mirror a (v.on a + v'.on a + k)) := by
  refine ⟨fun _ => rfl, fun p => Point.ext_on (a := a) ?_ ?_⟩
  · rw [Point.on_shift, on_mirror, on_mirror, Point.on_shift]
    ring
  · rw [Point.on_shift, on_other_mirror, on_other_mirror, Point.on_shift, h]

theorem transpose_moves (v v' w : Point ℚ) :
    (transpose w).Moves v v' (transpose ⟨w.x + v'.x - v.y, w.y + v'.y - v.x⟩) := by
  refine ⟨fun _ => rfl, fun p => ?_⟩
  have hx : v'.x + (p.y + w.x) = v.y + p.y + (w.x + v'.x - v.y) := by ring
  have hy : v'.y + (p.x + w.y) = v.x + p.x + (w.y + v'.y - v.x) := by ring
  exact (Point.mk.injEq ..).mpr ⟨hx, hy⟩

variable {σ' : Symmetry} {v v' : Point ℚ}

theorem shift_box (h : σ.Moves v v' σ') (n : TableBox ℚ) : (σ.box n).shift v' = σ'.box (n.shift v) := by
  rw [box_eq, TableBox.shift_fill_around, h.point, box_eq, TableBox.center_shift, TableBox.size_shift, h.size]
  rfl

end Symmetry

end Erd

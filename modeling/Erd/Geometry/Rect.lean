import Erd.Geometry.Scalar

/-!
# Points, sizes and rectangles

A rectangle is its upper left corner and its size.  `union` is the hull of two rectangles, and two
rectangles intersect if their interiors do: touching edges do not count.
-/

namespace Erd

structure Point (α : Type) where
  x : α
  y : α
deriving DecidableEq, Repr

structure Size (α : Type) where
  width : α
  height : α
deriving DecidableEq, Repr

structure Rect (α : Type) where
  x : α
  y : α
  width : α
  height : α
deriving DecidableEq, Repr

variable {α : Type} [Scalar α]

namespace Point

def origin : Point α := ⟨Scalar.zero, Scalar.zero⟩

/-- The point moved by a vector. -/
def shift (v p : Point α) : Point α := ⟨p.x + v.x, p.y + v.y⟩

end Point

namespace Rect

def empty : Rect α := ⟨Scalar.zero, Scalar.zero, Scalar.zero, Scalar.zero⟩

def right (r : Rect α) : α := r.x + r.width

def bottom (r : Rect α) : α := r.y + r.height

def intersects (a b : Rect α) : Bool :=
  Scalar.less a.x b.right && Scalar.less b.x a.right && Scalar.less a.y b.bottom &&
    Scalar.less b.y a.bottom

def union (a b : Rect α) : Rect α :=
  let x := Scalar.smaller a.x b.x
  let y := Scalar.smaller a.y b.y
  ⟨x, y, Scalar.larger a.right b.right - x, Scalar.larger a.bottom b.bottom - y⟩

/-- The rectangle grown by `side` on the left and on the right, and by `top` and `foot`. -/
def expand (r : Rect α) (side top foot : α) : Rect α :=
  ⟨r.x - side, r.y - top, r.width + side * Scalar.two, r.height + top + foot⟩

/-- The hull of a list of rectangles, if there are any. -/
def hull? : List (Rect α) → Option (Rect α)
  | [] => none
  | r :: rs => some (rs.foldl union r)

end Rect

end Erd

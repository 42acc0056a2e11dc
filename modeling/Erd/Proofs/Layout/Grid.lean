import Mathlib.Order.Bounds.Basic
import Erd.Layout.Grid
import Erd.Proofs.Layout.Separation

/-!
# Boxes of a grid

No two boxes of a grid overlap, whatever their number and sizes are.  What is put behind the cursor stands
right of it in its row or below the row, and the cursor passes every box on its right and keeps the height of
the row, so that each box is clear of all that come after it.

    gridColumns n is the least number, and at least one, whose square holds n      (isLeast_gridColumns)
    b ∈ gridFrom o columns i c nodes → c.Ahead b.position                                  (ahead_gridFrom)
    (gridFrom o columns i c nodes).Pairwise Apart                                          (gridFrom_apart)
    i ≠ j → boxes i and j of d.grid options do not intersect                             (grid_intersects)
-/

namespace Erd

/-! ## Columns -/

/-- As many columns as the next square root has. -/
theorem isLeast_gridColumns (n : Nat) : IsLeast {c | 1 ≤ c ∧ n ≤ c * c} (gridColumns n) := by
  unfold gridColumns
  cases hfind : (List.range (n + 1)).find? fun c => n ≤ c * c with
  | none =>
    -- the number itself is large enough
    have hn := List.find?_eq_none.1 hfind n (List.mem_range.2 (Nat.lt_succ_self n))
    exact absurd (Nat.le_mul_self n) (by simpa using hn)
  | some c =>
    obtain ⟨hc, -, hless⟩ := List.find?_range_eq_some.1 hfind
    have hc : n ≤ c * c := by simpa using hc
    have hsquare : c * c ≤ max 1 c * max 1 c := Nat.mul_le_mul (Nat.le_max_right 1 c) (Nat.le_max_right 1 c)
    refine ⟨⟨Nat.le_max_left 1 c, hc.trans hsquare⟩, ?_⟩
    rintro b ⟨hb, hnb⟩
    refine Nat.max_le.2 ⟨hb, Nat.le_of_not_lt fun hlt => ?_⟩
    have hbn : b * b < n := by simpa using hless b hlt
    omega

/-! ## The cursor -/

/-- No gap is negative. -/
structure LayoutOptions.Spaced (o : LayoutOptions ℚ) : Prop where
  nodeSpacing : 0 ≤ o.nodeSpacing
  rankSpacing : 0 ≤ o.rankSpacing

theorem LayoutOptions.spaced_sanitized (o : LayoutOptions ℚ) : o.sanitized.Spaced :=
  ⟨Scalar.clamp_nonneg _, Scalar.clamp_nonneg _⟩

namespace GridCursor

variable {o : LayoutOptions ℚ} {c : GridCursor ℚ} {p : Point ℚ} {s : Size ℚ}

/-- A place right of the cursor in its row, or below the row. -/
structure Ahead (c : GridCursor ℚ) (p : Point ℚ) : Prop where
  below : c.y ≤ p.y
  beyond : c.x ≤ p.x ∨ c.y + c.rowHeight ≤ p.y

/-- The cursor at a box of a given number, in the row below if the row is full. -/
def atBox (o : LayoutOptions ℚ) (columns i : Nat) (c : GridCursor ℚ) : GridCursor ℚ :=
  if 0 < i ∧ i % columns = 0 then c.nextRow o else c

theorem ahead_self (c : GridCursor ℚ) : c.Ahead ⟨c.x, c.y⟩ := ⟨le_refl c.y, Or.inl (le_refl c.x)⟩

/-- The height of a row grows with its boxes. -/
theorem rowHeight_past (o : LayoutOptions ℚ) (s : Size ℚ) (c : GridCursor ℚ) :
    c.rowHeight ≤ (c.past o s).rowHeight ∧ s.height ≤ (c.past o s).rowHeight := by
  have h : (c.past o s).rowHeight = max c.rowHeight s.height := Scalar.larger_eq _ _
  rw [h]
  exact ⟨le_max_left _ _, le_max_right _ _⟩

theorem Ahead.of_past (ho : o.Spaced) (hs : 0 ≤ s.width) (h : (c.past o s).Ahead p) : c.Ahead p := by
  refine ⟨h.below, h.beyond.imp (fun hx => ?_) fun hy => ?_⟩
  · have hx : c.x + (s.width + o.nodeSpacing) ≤ p.x := hx
    have hgap := ho.nodeSpacing
    linarith
  · have hy : c.y + (c.past o s).rowHeight ≤ p.y := hy
    have hrow := (rowHeight_past o s c).1
    linarith

theorem Ahead.of_nextRow (ho : o.Spaced) (hc : 0 ≤ c.rowHeight) (h : (c.nextRow o).Ahead p) : c.Ahead p := by
  have hy : c.y + (c.rowHeight + o.rankSpacing) ≤ p.y := h.below
  have hgap := ho.rankSpacing
  exact ⟨by linarith, Or.inr (by linarith)⟩

theorem Ahead.of_atBox (ho : o.Spaced) (hc : 0 ≤ c.rowHeight) (columns i : Nat)
    (h : (c.atBox o columns i).Ahead p) : c.Ahead p := by
  unfold atBox at h
  split at h
  · exact h.of_nextRow ho hc
  · exact h

theorem rowHeight_atBox (o : LayoutOptions ℚ) (columns i : Nat) (hc : 0 ≤ c.rowHeight) :
    0 ≤ (c.atBox o columns i).rowHeight := by
  unfold atBox
  split
  · exact le_refl (0 : ℚ)
  · exact hc

/-- A box at the cursor is clear of whatever is put behind it. -/
theorem Ahead.apart (ho : o.Spaced) {n b : TableBox ℚ} (h : (c.past o n.size).Ahead b.position) :
    (n.moveTo ⟨c.x, c.y⟩).Apart b := by
  rw [← TableBox.intersects_eq_false, ← Bool.not_eq_true, Rect.intersects_eq_true]
  rintro ⟨⟨-, hx⟩, -, hy⟩
  have hx : b.position.x < c.x + n.size.width := hx
  have hy : b.position.y < c.y + n.size.height := hy
  rcases h.beyond with hbeyond | hbelow
  · have hbeyond : c.x + (n.size.width + o.nodeSpacing) ≤ b.position.x := hbeyond
    have hgap := ho.nodeSpacing
    linarith
  · have hbelow : c.y + (c.past o n.size).rowHeight ≤ b.position.y := hbelow
    have hrow := (rowHeight_past o n.size c).2
    linarith

end GridCursor

/-! ## Boxes one after the other -/

section
variable {o : LayoutOptions ℚ} {columns i : Nat} {c : GridCursor ℚ} {nodes : List (TableBox ℚ)}

theorem gridFrom_cons (o : LayoutOptions ℚ) (columns i : Nat) (c : GridCursor ℚ) (n : TableBox ℚ)
    (rest : List (TableBox ℚ)) : gridFrom o columns i c (n :: rest) =
      n.moveTo ⟨(c.atBox o columns i).x, (c.atBox o columns i).y⟩ ::
        gridFrom o columns (i + 1) ((c.atBox o columns i).past o n.size) rest := rfl

theorem length_gridFrom (o : LayoutOptions ℚ) (columns i : Nat) (c : GridCursor ℚ) (nodes : List (TableBox ℚ)) :
    (gridFrom o columns i c nodes).length = nodes.length := by
  induction nodes generalizing i c with
  | nil => rfl
  | cons n rest ih => exact congrArg (· + 1) (ih _ _)

/-- All boxes are put ahead of the cursor. -/
theorem ahead_gridFrom (ho : o.Spaced) (hc : 0 ≤ c.rowHeight) (hn : ∀ n ∈ nodes, 0 ≤ n.size.width)
    {b : TableBox ℚ} (hb : b ∈ gridFrom o columns i c nodes) : c.Ahead b.position := by
  induction nodes generalizing i c with
  | nil => cases hb
  | cons n rest ih =>
    obtain ⟨hwidth, hrest⟩ := List.forall_mem_cons.1 hn
    have hrow := GridCursor.rowHeight_atBox o columns i hc
    refine GridCursor.Ahead.of_atBox ho hc columns i ?_
    rw [gridFrom_cons] at hb
    rcases List.mem_cons.1 hb with rfl | hb
    · exact GridCursor.ahead_self _
    · exact (ih (hrow.trans (GridCursor.rowHeight_past o n.size _).1) hrest hb).of_past ho hwidth

theorem gridFrom_apart (ho : o.Spaced) (hc : 0 ≤ c.rowHeight) (hn : ∀ n ∈ nodes, 0 ≤ n.size.width) :
    (gridFrom o columns i c nodes).Pairwise TableBox.Apart := by
  induction nodes generalizing i c with
  | nil => exact .nil
  | cons n rest ih =>
    have hrest := (List.forall_mem_cons.1 hn).2
    have hrow := (GridCursor.rowHeight_atBox o columns i hc).trans (GridCursor.rowHeight_past o n.size _).1
    rw [gridFrom_cons]
    exact .cons (fun b hb => (ahead_gridFrom ho hrow hrest hb).apart ho) (ih hrow hrest)

end

namespace Diagram

/-- The boxes of a grid before it is framed. -/
def gridded (o : LayoutOptions ℚ) (d : Diagram ℚ) : Diagram ℚ :=
  { d.clearRoutes with nodes := gridFrom o (gridColumns d.nodes.length) 0 ⟨o.padding, o.padding, 0⟩ d.nodes }

theorem grid_eq (options : LayoutOptions ℚ) (d : Diagram ℚ) :
    d.grid options = (d.gridded options.sanitized).fit .standard options.sanitized.padding := rfl

theorem length_grid (options : LayoutOptions ℚ) (d : Diagram ℚ) :
    (d.grid options).nodes.length = d.nodes.length := by
  obtain ⟨v, hv⟩ := (d.gridded options.sanitized).nodes_fit .standard options.sanitized.padding
  rw [grid_eq, hv, List.length_map]
  exact length_gridFrom _ _ _ _ d.nodes

theorem gridded_apart {o : LayoutOptions ℚ} (ho : o.Spaced) {d : Diagram ℚ} (h : d.Sized) :
    (d.gridded o).nodes.Pairwise TableBox.Apart :=
  gridFrom_apart ho (le_refl (0 : ℚ)) fun n hn => (h n hn).1

/-- Edges without ways have none in a frame. -/
theorem points_fit {m : Metrics ℚ} {padding : ℚ} {d : Diagram ℚ} (h : ∀ e ∈ d.edges, e.points = []) :
    ∀ e ∈ (d.fit m padding).edges, e.points = [] := by
  have hedges : (d.fit m padding).edges = d.edges.map (·.shift (d.offset m padding)) :=
    congrArg edges (d.unframed_fit m padding)
  rw [hedges]
  intro e he
  obtain ⟨x, hx, rfl⟩ := List.mem_map.1 he
  show x.points.map (·.shift (d.offset m padding)) = []
  rw [h x hx]
  rfl

/-- No two boxes of a grid intersect, and its edges have no ways. -/
theorem grid_intersects (options : LayoutOptions ℚ) {d : Diagram ℚ} (h : d.Sized) :
    (∀ i j, ∀ (hi : i < (d.grid options).nodes.length) (hj : j < (d.grid options).nodes.length), i ≠ j →
      ((d.grid options).nodes[i]).rect.intersects ((d.grid options).nodes[j]).rect = false) ∧
        ∀ e ∈ (d.grid options).edges, e.points = [] := by
  have hall := gridded_apart options.spaced_sanitized h
  have hapart {i j : Nat} (hij : i ≠ j) : ∀ a b, (d.gridded options.sanitized).nodes[i]? = some a →
      (d.gridded options.sanitized).nodes[j]? = some b → a.Apart b := by
    intro a b ha hb
    obtain ⟨hi, rfl⟩ := List.getElem?_eq_some_iff.1 ha
    obtain ⟨hj, rfl⟩ := List.getElem?_eq_some_iff.1 hb
    rcases Nat.lt_or_gt_of_ne hij with hlt | hlt
    · exact List.pairwise_iff_getElem.1 hall i j hi hj hlt
    · exact (List.pairwise_iff_getElem.1 hall j i hj hi hlt).symm
  refine ⟨fun i j hi hj hij => ?_, points_fit fun e he => ?_⟩
  · exact TableBox.intersects_eq_false.2
      (fit_apart (hapart hij) _ _ (List.getElem?_eq_getElem hi) (List.getElem?_eq_getElem hj))
  · obtain ⟨x, -, rfl⟩ := List.mem_map.1 he
    rfl

/-- Five boxes in two rows, one of them without extent and all without gaps, in a group with a header. -/
def shelved : Diagram ℚ :=
  { nodes :=
      [{ id := "a", name := "a", position := ⟨1, 1⟩, size := ⟨4, 2⟩, columns := [] },
       { id := "a", name := "a", position := ⟨1, 1⟩, size := ⟨0, 0⟩, columns := [] },
       { id := "b", name := "b", position := ⟨0, 0⟩, size := ⟨3, 3⟩, columns := [] },
       { id := "c", name := "c", position := ⟨0, 0⟩, size := ⟨1, 5⟩, columns := [] },
       { id := "d", name := "d", position := ⟨0, 0⟩, size := ⟨2, 1⟩, columns := [] }]
    edges := [{ id := "e", source := ⟨"a", "x"⟩, target := ⟨"b", "x"⟩, type := .manyToOne, points := [⟨1, 1⟩, ⟨0, 0⟩] }]
    groups := [{ id := "g", name := "g", members := ["a", "d"] }] }

theorem grid_shelved : shelved.Sized ∧
    (∃ (hi : 0 < (shelved.grid ⟨.topToBottom, 0, 0, 0⟩).nodes.length)
        (hj : 3 < (shelved.grid ⟨.topToBottom, 0, 0, 0⟩).nodes.length),
      ((shelved.grid ⟨.topToBottom, 0, 0, 0⟩).nodes[0]).rect.intersects
        ((shelved.grid ⟨.topToBottom, 0, 0, 0⟩).nodes[3]).rect = false) ∧
      ∀ e ∈ (shelved.grid ⟨.topToBottom, 0, 0, 0⟩).edges, e.points = [] := by
  have hs : shelved.Sized := by
    unfold Sized
    decide
  have hlength := length_grid ⟨.topToBottom, 0, 0, 0⟩ shelved
  have hfive : shelved.nodes.length = 5 := rfl
  obtain ⟨hboxes, hedges⟩ := grid_intersects ⟨.topToBottom, 0, 0, 0⟩ hs
  exact ⟨hs, ⟨by omega, by omega, hboxes 0 3 _ _ (by decide)⟩, hedges⟩

end Diagram

end Erd

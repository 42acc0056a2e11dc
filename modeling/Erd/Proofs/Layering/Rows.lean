import Erd.Layering.Placement
import Erd.Proofs.Geometry.Exact

/-!
# Rows and bands

The boxes of a rank follow each other along their row, and the bands follow each other across the drawing,
so the centres of any two boxes keep the distance that their sizes need.

    Size.Apart in ranks → Size.Apart on the canvas                              (apart_toCanvas)
    (m.centers f (m.bands layers)).map (·.1) = layers.flatten                     (centers_nodes)
    m.Sized → (m.centers f (m.bands layers)).Pairwise (m.Apart f)                (centers_apart)
-/

namespace Erd

/-! ## Frames -/

namespace RankFrame

variable {s t : Size ℚ} {a b a' b' : ℚ}

/-- Boxes that are apart along and across ranks are apart on the canvas. -/
theorem apart_toCanvas (f : RankFrame ℚ)
    (h : (s.oriented f.direction).Apart (t.oriented f.direction) ⟨a, b⟩ ⟨a', b'⟩) :
    s.Apart t (f.toCanvas a b) (f.toCanvas a' b') := by
  have hreflect : f.depth - b - (f.depth - b') = -(b - b') := by ring
  have hacross : |(if f.direction.isReversed then f.depth - b else b) -
      (if f.direction.isReversed then f.depth - b' else b')| = |b - b'| := by
    split
    · rw [hreflect, abs_neg]
    · rfl
  unfold toCanvas Size.Apart
  unfold Size.oriented Size.Apart at h
  cases hd : f.direction.isHorizontal with
  | true =>
    simp only [hd, if_true] at h ⊢
    rw [hacross]
    exact h.symm
  | false =>
    simp only [hd, Bool.false_eq_true, if_false] at h ⊢
    rw [hacross]
    exact h

end RankFrame

namespace RowMetrics

variable {m : RowMetrics ℚ} {f : RankFrame ℚ}

/-- No length along a row and no gap is negative. -/
structure Sized (m : RowMetrics ℚ) : Prop where
  width : ∀ i, 0 ≤ (m.size i).width
  nodeSpacing : 0 ≤ m.nodeSpacing
  rankSpacing : 0 ≤ m.rankSpacing

/-- Two boxes whose centres, along and across ranks, are far enough from each other. -/
def Apart (m : RowMetrics ℚ) (f : RankFrame ℚ) (x y : Nat × Point ℚ) : Prop :=
  ∃ a b a' b', x.2 = f.toCanvas a b ∧ y.2 = f.toCanvas a' b' ∧ (m.size x.1).Apart (m.size y.1) ⟨a, b⟩ ⟨a', b'⟩

instance : Std.Symm (m.Apart f) where
  symm x y h := by
    obtain ⟨a, b, a', b', hx, hy, h⟩ := h
    exact ⟨a', b', a, b, hy, hx, h.symm⟩

/-! ## Rows -/

theorem rowCenters_nodes (m : RowMetrics ℚ) (f : RankFrame ℚ) (across along : ℚ) (layer : List Nat) :
    (m.rowCenters f across along layer).map (·.1) = layer := by
  induction layer generalizing along with
  | nil => rfl
  | cons i rest ih => exact congrArg (i :: ·) (ih _)

/-- A box of a row stands behind the begin of the row. -/
theorem mem_rowCenters (hm : m.Sized) {across along : ℚ} {layer : List Nat} {x : Nat × Point ℚ}
    (hx : x ∈ m.rowCenters f across along layer) :
    ∃ a, x.2 = f.toCanvas a across ∧ along + (m.size x.1).width / 2 ≤ a := by
  induction layer generalizing along with
  | nil => cases hx
  | cons i rest ih =>
    rcases List.mem_cons.1 hx with rfl | hx
    · exact ⟨_, rfl, le_refl _⟩
    · obtain ⟨a, ha, hle⟩ := ih hx
      have hw := hm.width i
      have hs := hm.nodeSpacing
      exact ⟨a, ha, by linarith⟩

/-- The boxes of a row are apart along it. -/
theorem rowCenters_apart (hm : m.Sized) (across along : ℚ) (layer : List Nat) :
    (m.rowCenters f across along layer).Pairwise (m.Apart f) := by
  induction layer generalizing along with
  | nil => exact .nil
  | cons i rest ih =>
    refine .cons (fun y hy => ?_) (ih _)
    obtain ⟨a, ha, hle⟩ := mem_rowCenters hm hy
    refine ⟨_, _, a, across, rfl, ha, Or.inl ?_⟩
    have hs := hm.nodeSpacing
    have hgap : ((m.size i).width + (m.size y.1).width) / 2 ≤ a - (along + (m.size i).width / 2) := by linarith
    rw [abs_sub_comm]
    exact hgap.trans (le_abs_self _)

/-! ## Bands -/

theorem foldl_larger (xs : List ℚ) (a : ℚ) :
    a ≤ xs.foldl Scalar.larger a ∧ ∀ x ∈ xs, x ≤ xs.foldl Scalar.larger a := by
  induction xs generalizing a with
  | nil => exact ⟨le_refl a, nofun⟩
  | cons x xs ih =>
    obtain ⟨ha, hxs⟩ := ih (Scalar.larger a x)
    rw [Scalar.larger_eq] at ha hxs
    rw [List.foldl_cons, Scalar.larger_eq]
    refine ⟨(le_max_left a x).trans ha, ?_⟩
    intro y hy
    rcases List.mem_cons.1 hy with rfl | hy
    · exact (le_max_right a y).trans ha
    · exact hxs y hy

theorem thickness_nonneg (m : RowMetrics ℚ) (layer : List Nat) : 0 ≤ m.thickness layer := (foldl_larger _ 0).1

/-- A band is as thick as the highest of its boxes. -/
theorem height_le_thickness (m : RowMetrics ℚ) {layer : List Nat} {i : Nat} (h : i ∈ layer) :
    (m.size i).height ≤ m.thickness layer :=
  (foldl_larger _ 0).2 _ (List.mem_map_of_mem h)

theorem bandsFrom_nodes (m : RowMetrics ℚ) (start : ℚ) (layers : List (List Nat)) :
    (m.bandsFrom start layers).map (·.nodes) = layers := by
  induction layers generalizing start with
  | nil => rfl
  | cons layer rest ih => exact congrArg (layer :: ·) (ih _)

theorem mem_bandsFrom (hm : m.Sized) {start : ℚ} {layers : List (List Nat)} {b : Band ℚ}
    (hb : b ∈ m.bandsFrom start layers) : b.thickness = m.thickness b.nodes ∧ start ≤ b.start := by
  induction layers generalizing start with
  | nil => cases hb
  | cons layer rest ih =>
    rcases List.mem_cons.1 hb with rfl | hb
    · exact ⟨rfl, le_refl _⟩
    · obtain ⟨ht, hle⟩ := ih hb
      have hthick := m.thickness_nonneg layer
      have hs := hm.rankSpacing
      exact ⟨ht, by linarith⟩

/-- Every band ends before the bands behind it begin. -/
theorem bandsFrom_pairwise (hm : m.Sized) (start : ℚ) (layers : List (List Nat)) :
    (m.bandsFrom start layers).Pairwise fun b c => b.start + b.thickness + m.rankSpacing ≤ c.start := by
  induction layers generalizing start with
  | nil => exact .nil
  | cons layer rest ih =>
    refine .cons (fun c hc => ?_) (ih _)
    have hle := (mem_bandsFrom hm hc).2
    show start + m.thickness layer + m.rankSpacing ≤ c.start
    linarith

theorem bandCenters_nodes (m : RowMetrics ℚ) (f : RankFrame ℚ) (widest : ℚ) (b : Band ℚ) :
    (m.bandCenters f widest b).map (·.1) = b.nodes := m.rowCenters_nodes f _ _ b.nodes

/-- The centres of a band lie on its middle line. -/
theorem mem_bandCenters (hm : m.Sized) {widest : ℚ} {b : Band ℚ} {x : Nat × Point ℚ}
    (hx : x ∈ m.bandCenters f widest b) :
    x.1 ∈ b.nodes ∧ ∃ a, x.2 = f.toCanvas a (b.start + b.thickness / 2) := by
  refine ⟨?_, ?_⟩
  · rw [← m.bandCenters_nodes f widest b]
    exact List.mem_map_of_mem hx
  · obtain ⟨a, ha, -⟩ := mem_rowCenters hm hx
    exact ⟨a, ha⟩

/-- The boxes of a band are apart across ranks from those of the bands behind it. -/
theorem bandCenters_apart (hm : m.Sized) {widest : ℚ} {b c : Band ℚ} (hb : b.thickness = m.thickness b.nodes)
    (hc : c.thickness = m.thickness c.nodes) (h : b.start + b.thickness + m.rankSpacing ≤ c.start)
    {x y : Nat × Point ℚ} (hx : x ∈ m.bandCenters f widest b) (hy : y ∈ m.bandCenters f widest c) :
    m.Apart f x y := by
  obtain ⟨hxn, a, ha⟩ := mem_bandCenters hm hx
  obtain ⟨hyn, a', ha'⟩ := mem_bandCenters hm hy
  refine ⟨a, _, a', _, ha, ha', Or.inr ?_⟩
  have hxt := hb ▸ m.height_le_thickness hxn
  have hyt := hc ▸ m.height_le_thickness hyn
  have hs := hm.rankSpacing
  have hgap : ((m.size x.1).height + (m.size y.1).height) / 2 ≤
      c.start + c.thickness / 2 - (b.start + b.thickness / 2) := by linarith
  rw [abs_sub_comm]
  exact hgap.trans (le_abs_self _)

/-! ## Centres -/

theorem centers_nodes (m : RowMetrics ℚ) (f : RankFrame ℚ) (layers : List (List Nat)) :
    (m.centers f (m.bands layers)).map (·.1) = layers.flatten := by
  have hbands : (m.bands layers).map (·.nodes) = layers := m.bandsFrom_nodes 0 layers
  conv => rhs; rw [← hbands]
  unfold centers
  rw [List.map_flatMap, List.flatMap_def]
  exact congrArg List.flatten (List.map_congr_left fun b _ => m.bandCenters_nodes f _ b)

/-- Any two boxes of a drawing are apart. -/
theorem centers_apart (hm : m.Sized) (f : RankFrame ℚ) (layers : List (List Nat)) :
    (m.centers f (m.bands layers)).Pairwise (m.Apart f) := by
  unfold centers
  rw [List.pairwise_flatMap]
  constructor
  · intro b _
    exact rowCenters_apart hm _ _ b.nodes
  · refine (bandsFrom_pairwise hm 0 layers).imp_of_mem fun hb hc h x hx y hy => ?_
    exact bandCenters_apart hm (mem_bandsFrom hm hb).1 (mem_bandsFrom hm hc).1 h hx hy

end RowMetrics

end Erd

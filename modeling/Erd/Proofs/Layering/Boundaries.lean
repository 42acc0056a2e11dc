import Erd.Layering.Route
import Erd.Proofs.Layering.Layers
import Erd.Proofs.Layering.Rows

/-!
# Boundaries between ranks

An edge crosses the boundary behind every rank between its ends, in the order of its direction.  Each boundary
lies in the middle of the gap between two bands, behind all bands up to the first and in front of all bands from
the second on.

    |k - l| boundaries lie between the ranks k and l                                    (length_crossed)
    the i-th of them lies behind the rank gapAt k l i                                (getElem?_crossed)
    c is a boundary ↔ it is halfway between two bands that follow each other      (getElem?_boundaries)
    bands up to a boundary end in front of it, the others begin behind it            (end_le, le_start)
-/

namespace Erd

/-! ## Boundaries that are crossed -/

/-- The rank behind which an edge crosses its boundary of a number. -/
def gapAt (k l i : Nat) : Nat := if k < l then k + i else k - (i + 1)

section
variable {α : Type} {bounds : List α} {k l i : Nat}

theorem crossed_up (h : k < l) : crossed bounds k l = (bounds.drop k).take (l - k) := if_pos h

theorem crossed_reverse (h : l < k) : crossed bounds k l = (crossed bounds l k).reverse := by
  rw [crossed_up h]
  exact if_neg (Nat.not_lt.2 h.le)

theorem length_crossed (hk : k ≤ bounds.length) (hl : l ≤ bounds.length) :
    (crossed bounds k l).length = ((k : ℤ) - l).natAbs := by
  unfold crossed
  split <;> simp only [List.length_reverse, List.length_take, List.length_drop] <;> omega

theorem getElem?_crossed (hk : k ≤ bounds.length) (hl : l ≤ bounds.length) (hi : i < ((k : ℤ) - l).natAbs) :
    (crossed bounds k l)[i]? = bounds[gapAt k l i]? := by
  unfold crossed gapAt
  split
  · rw [List.getElem?_take_of_lt (by omega), List.getElem?_drop]
  · have hlength : ((bounds.drop l).take (k - l)).length = k - l := by
      rw [List.length_take, List.length_drop]
      omega
    have hplace : l + (k - l - 1 - i) = k - (i + 1) := by omega
    rw [List.getElem?_reverse (by omega), hlength, List.getElem?_take_of_lt (by omega), List.getElem?_drop, hplace]

/-- Whatever is crossed lies behind a rank between the two. -/
theorem mem_crossed {c : α} (h : c ∈ crossed bounds k l) :
    ∃ r, min k l ≤ r ∧ r < max k l ∧ bounds[r]? = some c := by
  have hbetween {k l : Nat} (hc : c ∈ (bounds.drop k).take (l - k)) : ∃ r, k ≤ r ∧ r < l ∧ bounds[r]? = some c := by
    obtain ⟨i, hi⟩ := List.getElem?_of_mem hc
    obtain ⟨hlt, -⟩ := List.getElem?_eq_some_iff.1 hi
    rw [List.length_take] at hlt
    rw [List.getElem?_take_of_lt (by omega), List.getElem?_drop] at hi
    exact ⟨k + i, by omega, by omega, hi⟩
  unfold crossed at h
  split at h
  · next hlt =>
    rw [Nat.min_eq_left hlt.le, Nat.max_eq_right hlt.le]
    exact hbetween h
  · next hlt =>
    rw [Nat.min_eq_right (Nat.not_lt.1 hlt), Nat.max_eq_left (Nat.not_lt.1 hlt)]
    exact hbetween (List.mem_reverse.1 h)

end

/-! ## Boundaries of bands -/

section
variable {bands : List (Band ℚ)} {r : Nat} {c : ℚ}

theorem length_boundaries (bands : List (Band ℚ)) : (boundaries bands).length = bands.length - 1 := by
  fun_induction boundaries bands with
  | case1 a b rest ih =>
    rw [List.length_cons, ih]
    rfl
  | case2 bands hnone =>
    match bands with
    | [] => rfl
    | [_] => rfl
    | a :: b :: rest => exact absurd rfl (hnone a b rest)

theorem getElem?_boundaries : (boundaries bands)[r]? = some c ↔
    ∃ a b, bands[r]? = some a ∧ bands[r + 1]? = some b ∧ c = a.boundary b := by
  fun_induction boundaries bands generalizing r with
  | case1 a b rest ih =>
    cases r with
    | zero => simp [eq_comm]
    | succ r => simpa using ih
  | case2 bands hnone =>
    match bands with
    | [] => simp
    | [_] => simp
    | a :: b :: rest => exact absurd rfl (hnone a b rest)

/-- Bands that follow each other, with a gap between any two neighbours. -/
structure Stacked (gap : ℚ) (bands : List (Band ℚ)) : Prop where
  gap_nonneg : 0 ≤ gap
  thickness : ∀ b ∈ bands, 0 ≤ b.thickness
  next : ∀ r a b, bands[r]? = some a → bands[r + 1]? = some b → a.start + a.thickness + gap = b.start

namespace Stacked

variable {gap : ℚ} {a b : Band ℚ} {k : Nat}

theorem thickness_nonneg (h : Stacked gap bands) (ha : bands[r]? = some a) : 0 ≤ a.thickness :=
  h.thickness a (List.mem_of_getElem? ha)

/-- A band ends in front of all bands behind it. -/
theorem apart (h : Stacked gap bands) {k : Nat} (ha : bands[r]? = some a) (hb : bands[r + 1 + k]? = some b) :
    a.start + a.thickness + gap ≤ b.start := by
  induction k generalizing b with
  | zero => exact (h.next r a b ha hb).le
  | succ k ih =>
    obtain ⟨hlt, -⟩ := List.getElem?_eq_some_iff.1 hb
    have hmid : bands[r + 1 + k]? = some bands[r + 1 + k] := List.getElem?_eq_getElem _
    have hle := ih hmid
    have hnext := h.next _ _ b hmid hb
    have hgap := h.gap_nonneg
    have hthick := h.thickness_nonneg hmid
    linarith

theorem boundary_eq (h : Stacked gap bands) (ha : bands[r]? = some a) (hb : bands[r + 1]? = some b) :
    a.boundary b = a.start + a.thickness + gap / 2 := by
  have hnext := h.next r a b ha hb
  show (a.start + a.thickness + b.start) / 2 = _
  linarith

/-- Bands up to a boundary end in front of it. -/
theorem end_le (h : Stacked gap bands) (hc : (boundaries bands)[r]? = some c) (hb : bands[k]? = some b) (hk : k ≤ r) :
    b.start + b.thickness ≤ c := by
  obtain ⟨x, y, hx, hy, rfl⟩ := getElem?_boundaries.1 hc
  rw [h.boundary_eq hx hy]
  have hgap := h.gap_nonneg
  have hthick := h.thickness_nonneg hx
  obtain ⟨n, rfl⟩ := Nat.exists_eq_add_of_le hk
  cases n with
  | zero =>
    cases hb.symm.trans hx
    linarith
  | succ n =>
    rw [show k + (n + 1) = k + 1 + n by omega] at hx
    have hle := h.apart hb hx
    linarith

/-- Bands behind a boundary begin behind it. -/
theorem le_start (h : Stacked gap bands) (hc : (boundaries bands)[r]? = some c) (hb : bands[k]? = some b) (hk : r < k) :
    c ≤ b.start := by
  obtain ⟨x, y, hx, hy, rfl⟩ := getElem?_boundaries.1 hc
  rw [h.boundary_eq hx hy]
  obtain ⟨n, rfl⟩ := Nat.exists_eq_add_of_le (Nat.succ_le_of_lt hk)
  have hle := h.apart hx hb
  have hgap := h.gap_nonneg
  linarith

/-- Boundaries follow each other. -/
theorem boundaries_sorted (h : Stacked gap bands) : (boundaries bands).Pairwise (· ≤ ·) := by
  refine List.pairwise_iff_getElem.2 fun i j hi hj hij => ?_
  obtain ⟨b, -, hb, -⟩ := getElem?_boundaries.1 (List.getElem?_eq_getElem hj)
  have hfront := h.le_start (List.getElem?_eq_getElem hi) hb hij
  have hbehind := h.end_le (List.getElem?_eq_getElem hj) hb (Nat.le_refl j)
  have hthick := h.thickness_nonneg hb
  linarith

end Stacked

end

/-! ## Bands of ranks -/

namespace RowMetrics

variable {m : RowMetrics ℚ} {layers : List (List Nat)}

theorem bandsFrom_next {start : ℚ} {r : Nat} {a b : Band ℚ} (ha : (m.bandsFrom start layers)[r]? = some a)
    (hb : (m.bandsFrom start layers)[r + 1]? = some b) : a.start + a.thickness + m.rankSpacing = b.start := by
  induction layers generalizing start r with
  | nil => cases ha
  | cons layer rest ih =>
    cases r with
    | zero =>
      cases rest with
      | nil => cases hb
      | cons layer' rest =>
        cases ha
        cases hb
        exact add_assoc ..
    | succ r => exact ih ha hb

theorem stacked_bands (hm : m.Sized) (layers : List (List Nat)) : Stacked m.rankSpacing (m.bands layers) where
  gap_nonneg := hm.rankSpacing
  thickness b hb := by
    rw [(mem_bandsFrom hm hb).1]
    exact m.thickness_nonneg b.nodes
  next _ _ _ ha hb := bandsFrom_next ha hb

/-- A band with a box is as thick as one of its boxes. -/
theorem exists_thickest (m : RowMetrics ℚ) {layer : List Nat} (hne : layer ≠ [])
    (h : ∀ i ∈ layer, 0 ≤ (m.size i).height) : ∃ i ∈ layer, (m.size i).height = m.thickness layer := by
  have hmax : m.thickness layer = (layer.map fun i => (m.size i).height).foldl max 0 := by
    unfold thickness greatest
    rw [show (Scalar.larger : ℚ → ℚ → ℚ) = max from funext₂ Scalar.larger_eq, Scalar.zero_eq]
  rw [hmax]
  rcases foldl_max_cases (layer.map fun i => (m.size i).height) 0 with hzero | hmem
  · obtain ⟨i, hi⟩ := List.exists_mem_of_ne_nil layer hne
    have hle := m.height_le_thickness hi
    rw [hmax, hzero] at hle
    exact ⟨i, hi, (le_antisymm hle (h i hi)).trans hzero.symm⟩
  · exact List.mem_map.1 hmem

end RowMetrics

end Erd

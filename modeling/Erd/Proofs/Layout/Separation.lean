import Mathlib.Data.List.Pairwise
import Erd.Layout.Layered
import Erd.Proofs.Diagram.Image
import Erd.Proofs.Layering.Layers
import Erd.Proofs.Layering.Rows

/-!
# Boxes of a layered drawing

No two boxes of a layered drawing overlap, whatever their edges, ids and groups are and wherever they stood
before: boxes of one rank follow each other along it, those of different ranks lie in different bands, and
the moves that follow are the same for all boxes.

    Placed boxes are apart                                                      (ofLayers_apart)
    (d.fit m padding).nodes is d.nodes, moved by one vector                          (nodes_fit)
    i ≠ j → boxes i and j of d.layered options do not intersect               (layered_intersects)
-/

namespace Erd

/-! ## Placed boxes -/

theorem TableBox.center_centerAt (n : TableBox ℚ) (c : Point ℚ) : (n.centerAt c).center = c :=
  center_fill_around c n.size n

/-- No box has a negative width or height. -/
def Diagram.Sized (d : Diagram ℚ) : Prop := ∀ n ∈ d.nodes, 0 ≤ n.size.width ∧ 0 ≤ n.size.height

namespace Placement

variable {o : LayoutOptions ℚ} {nodes : List (TableBox ℚ)} {layers : List (List Nat)}

theorem size_rowMetrics (o : LayoutOptions ℚ) {i : Nat} {n : TableBox ℚ} (h : nodes[i]? = some n) :
    (rowMetrics o nodes).size i = n.size.oriented o.direction := by
  simp [rowMetrics, RowMetrics.size, h]

theorem sized_rowMetrics (h : ∀ n ∈ nodes, 0 ≤ n.size.width ∧ 0 ≤ n.size.height) (hn : 0 ≤ o.nodeSpacing)
    (hr : 0 ≤ o.rankSpacing) : (rowMetrics o nodes).Sized := by
  refine ⟨fun i => ?_, hn, hr⟩
  cases hi : nodes[i]? with
  | none =>
    have hzero : (rowMetrics o nodes).size i = ⟨0, 0⟩ := by simp [rowMetrics, RowMetrics.size, hi]
    rw [hzero]
  | some n =>
    obtain ⟨hw, hh⟩ := h n (List.mem_of_getElem? hi)
    rw [size_rowMetrics o hi]
    unfold Size.oriented
    split
    · exact hh
    · exact hw

/-- The centres of the boxes by number, before the drawing is moved to its padding. -/
def centersOf (o : LayoutOptions ℚ) (layers : List (List Nat)) (nodes : List (TableBox ℚ)) :
    List (Nat × Point ℚ) :=
  let m := rowMetrics o nodes
  m.centers ⟨o.direction, m.depth (m.bands layers)⟩ (m.bands layers)

/-- The box is put around its centre, and moved as all others are. -/
theorem getElem_ofLayers (o : LayoutOptions ℚ) (layers : List (List Nat)) (nodes : List (TableBox ℚ))
    (i : Nat) :
    (ofLayers o layers nodes).nodes[i]? = nodes[i]?.map fun n =>
      (n.centerAt (((centersOf o layers nodes).lookup i).getD Point.origin)).shift
        (ofLayers o layers nodes).shift := by
  unfold ofLayers
  rw [List.getElem?_map, List.getElem?_map, List.getElem?_zipIdx, Option.map_map, Option.map_map, Nat.zero_add]
  rfl

/-- A box that stands in a rank has a centre. -/
theorem exists_center (o : LayoutOptions ℚ) (nodes : List (TableBox ℚ)) {i : Nat} (h : i ∈ layers.flatten) :
    ∃ c, (centersOf o layers nodes).lookup i = some c ∧ (i, c) ∈ centersOf o layers nodes := by
  have hnodes : (centersOf o layers nodes).map (·.1) = layers.flatten :=
    (rowMetrics o nodes).centers_nodes ⟨o.direction, _⟩ layers
  rw [← hnodes] at h
  obtain ⟨x, hx, rfl⟩ := List.mem_map.1 h
  obtain ⟨c, hc⟩ := Option.isSome_iff_exists.1 (List.lookup_isSome_iff.2 ⟨x, hx, beq_self_eq_true x.1⟩)
  obtain ⟨front, back, hl, -⟩ := List.lookup_eq_some_iff.1 hc
  exact ⟨c, hc, hl ▸ List.mem_append_right front List.mem_cons_self⟩

/-- Boxes that stand in ranks are apart. -/
theorem ofLayers_apart (h : ∀ n ∈ nodes, 0 ≤ n.size.width ∧ 0 ≤ n.size.height) (hn : 0 ≤ o.nodeSpacing)
    (hr : 0 ≤ o.rankSpacing) {i j : Nat} (hi : i ∈ layers.flatten) (hj : j ∈ layers.flatten) (hij : i ≠ j)
    {a b : TableBox ℚ} (ha : (ofLayers o layers nodes).nodes[i]? = some a)
    (hb : (ofLayers o layers nodes).nodes[j]? = some b) : a.Apart b := by
  obtain ⟨p, hp, hip⟩ := exists_center o nodes hi
  obtain ⟨q, hq, hjq⟩ := exists_center o nodes hj
  rw [getElem_ofLayers, hp, Option.getD_some, Option.map_eq_some_iff] at ha
  rw [getElem_ofLayers, hq, Option.getD_some, Option.map_eq_some_iff] at hb
  obtain ⟨n, hn', rfl⟩ := ha
  obtain ⟨n', hn'', rfl⟩ := hb
  have hall := RowMetrics.centers_apart (sized_rowMetrics h hn hr)
    ⟨o.direction, (rowMetrics o nodes).depth ((rowMetrics o nodes).bands layers)⟩ layers
  have hne : (i, p) ≠ (j, q) := fun heq => hij (congrArg Prod.fst heq)
  obtain ⟨x, y, x', y', hpx, hqy, hxy⟩ := hall.forall hip hjq hne
  rw [size_rowMetrics o hn', size_rowMetrics o hn''] at hxy
  have hcanvas : n.size.Apart n'.size p q := by
    rw [show p = _ from hpx, show q = _ from hqy]
    exact RankFrame.apart_toCanvas _ hxy
  rw [TableBox.apart_shift, TableBox.Apart, TableBox.center_centerAt, TableBox.center_centerAt]
  exact hcanvas

end Placement

namespace Diagram

/-- A frame moves all boxes by one vector. -/
theorem nodes_fit (m : Metrics ℚ) (padding : ℚ) (d : Diagram ℚ) :
    ∃ v, (d.fit m padding).nodes = d.nodes.map (·.shift v) :=
  ⟨d.offset m padding, congrArg nodes (d.unframed_fit m padding)⟩

/-- Boxes that are apart before a frame are apart behind it. -/
theorem fit_apart {m : Metrics ℚ} {padding : ℚ} {d : Diagram ℚ} {i j : Nat}
    (h : ∀ a b, d.nodes[i]? = some a → d.nodes[j]? = some b → a.Apart b) :
    ∀ a b, (d.fit m padding).nodes[i]? = some a → (d.fit m padding).nodes[j]? = some b → a.Apart b := by
  obtain ⟨v, hv⟩ := d.nodes_fit m padding
  rw [hv, List.getElem?_map, List.getElem?_map]
  intro a b ha hb
  obtain ⟨n, hn, rfl⟩ := Option.map_eq_some_iff.1 ha
  obtain ⟨n', hn', rfl⟩ := Option.map_eq_some_iff.1 hb
  exact (TableBox.apart_shift v).2 (h n n' hn hn')

/-- A placed drawing holds its boxes apart. -/
theorem place_apart {o : LayoutOptions ℚ} {d : Diagram ℚ} (h : d.Sized) (hn : 0 ≤ o.nodeSpacing)
    (hr : 0 ≤ o.rankSpacing) {i j : Nat} (hij : i ≠ j) :
    ∀ a b, (d.place o (d.ranking.ordered ℚ)).nodes[i]? = some a →
      (d.place o (d.ranking.ordered ℚ)).nodes[j]? = some b → a.Apart b := by
  intro a b ha hb
  have hmem {k : Nat} {c : TableBox ℚ} (hc : (d.place o (d.ranking.ordered ℚ)).nodes[k]? = some c) :
      k ∈ (d.ranking.ordered ℚ).layers.flatten := by
    refine d.mem_ordered_layers ℚ ?_
    have hk := (Placement.getElem_ofLayers o (d.ranking.ordered ℚ).layers d.nodes k).symm.trans hc
    obtain ⟨n, hn, -⟩ := Option.map_eq_some_iff.1 hk
    exact (List.getElem?_eq_some_iff.1 hn).1
  exact Placement.ofLayers_apart h hn hr (hmem ha) (hmem hb) hij ha hb

/-- The layout keeps the number of boxes. -/
theorem length_layered (options : LayoutOptions ℚ) (d : Diagram ℚ) :
    (d.layered options).nodes.length = d.nodes.length := by
  unfold layered
  dsimp only
  split
  · obtain ⟨v, hv⟩ := d.clearRoutes.nodes_fit .standard options.sanitized.padding
    rw [hv, List.length_map]
    rfl
  · obtain ⟨v, hv⟩ :=
      (d.place options.sanitized (d.ranking.ordered ℚ)).nodes_fit .standard options.sanitized.padding
    rw [hv, List.length_map]
    simp [place, Placement.ofLayers]

/-- No two boxes of a layered drawing intersect. -/
theorem layered_intersects (options : LayoutOptions ℚ) {d : Diagram ℚ} (h : d.Sized) {i j : Nat}
    (hi : i < (d.layered options).nodes.length) (hj : j < (d.layered options).nodes.length) (hij : i ≠ j) :
    ((d.layered options).nodes[i]).rect.intersects ((d.layered options).nodes[j]).rect = false := by
  have happart : ∀ a b, (d.layered options).nodes[i]? = some a → (d.layered options).nodes[j]? = some b →
      a.Apart b := by
    refine fit_apart ?_
    split
    · next hempty =>
      intro a b ha
      rw [show d.clearRoutes.nodes = [] from List.isEmpty_iff.1 hempty] at ha
      cases ha
    · exact place_apart (o := options.sanitized) h (Scalar.clamp_nonneg _) (Scalar.clamp_nonneg _) hij
  exact TableBox.intersects_eq_false.2
    (happart _ _ (List.getElem?_eq_getElem hi) (List.getElem?_eq_getElem hj))

/-- Two boxes of one id and a third one, with a cycle, a loop and an edge to nowhere. -/
def crowded : Diagram ℚ :=
  { nodes :=
      [{ id := "a", name := "a", position := ⟨1, 1⟩, size := ⟨4, 2⟩, columns := [] },
       { id := "a", name := "a", position := ⟨1, 1⟩, size := ⟨0, 1⟩, columns := [] },
       { id := "b", name := "b", position := ⟨0, 0⟩, size := ⟨3, 3⟩, columns := [] }]
    edges :=
      [{ id := "e", source := ⟨"a", "x"⟩, target := ⟨"b", "x"⟩, type := .manyToOne },
       { id := "f", source := ⟨"b", "x"⟩, target := ⟨"a", "x"⟩, type := .manyToOne },
       { id := "g", source := ⟨"b", "x"⟩, target := ⟨"b", "x"⟩, type := .oneToOne },
       { id := "h", source := ⟨"c", "x"⟩, target := ⟨"a", "x"⟩, type := .oneToMany }] }

theorem layered_crowded : crowded.Sized ∧
    ∃ (hi : 0 < (crowded.layered .standard).nodes.length) (hj : 1 < (crowded.layered .standard).nodes.length),
      ((crowded.layered .standard).nodes[0]).rect.intersects
        ((crowded.layered .standard).nodes[1]).rect = false := by
  have hs : crowded.Sized := by
    unfold Sized
    decide
  have hlength : (crowded.layered .standard).nodes.length = 3 := length_layered .standard crowded
  have hi : 0 < (crowded.layered .standard).nodes.length := by omega
  have hj : 1 < (crowded.layered .standard).nodes.length := by omega
  exact ⟨hs, hi, hj, layered_intersects .standard hs hi hj (by decide)⟩

end Diagram

end Erd

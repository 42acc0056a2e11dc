import Erd.Proofs.Layering.LongestPaths
import Erd.Proofs.Layout.Separation

/-!
# Relations flow along the ranks

The boxes of a relation lie in different bands of a layered drawing, the gap between ranks apart.  The near
side comes first in the direction of the layout, unless the relation lies on a cycle.

    rank u < rank v → u precedes v on the canvas                                 (place_precedes)
    an edge leads from u to v → u precedes v, or it closes a cycle and v precedes u        (layered_precedes)
-/

open Relation (ReflTransGen)

namespace Erd

/-! ## Boxes one behind the other -/

/-- A rectangle ends, in a direction, at least a gap before another begins. -/
def Direction.Precedes (d : Direction) (gap : ℚ) (a b : Rect ℚ) : Prop :=
  match d with
  | .topToBottom => a.bottom + gap ≤ b.y
  | .bottomToTop => b.bottom + gap ≤ a.y
  | .leftToRight => a.right + gap ≤ b.x
  | .rightToLeft => b.right + gap ≤ a.x

theorem Direction.precedes_shift {d : Direction} {gap : ℚ} {a b : TableBox ℚ} (v : Point ℚ)
    (h : d.Precedes gap a.rect b.rect) : d.Precedes gap (a.shift v).rect (b.shift v).rect := by
  cases d with
  | topToBottom =>
    have h : a.position.y + a.size.height + gap ≤ b.position.y := h
    show v.y + a.position.y + a.size.height + gap ≤ v.y + b.position.y
    linarith
  | bottomToTop =>
    have h : b.position.y + b.size.height + gap ≤ a.position.y := h
    show v.y + b.position.y + b.size.height + gap ≤ v.y + a.position.y
    linarith
  | leftToRight =>
    have h : a.position.x + a.size.width + gap ≤ b.position.x := h
    show v.x + a.position.x + a.size.width + gap ≤ v.x + b.position.x
    linarith
  | rightToLeft =>
    have h : b.position.x + b.size.width + gap ≤ a.position.x := h
    show v.x + b.position.x + b.size.width + gap ≤ v.x + a.position.x
    linarith

/-- Boxes whose centres are far enough from each other across ranks. -/
theorem RankFrame.precedes_centerAt (f : RankFrame ℚ) {n n' : TableBox ℚ} {along along' across across' gap : ℚ}
    (h : across + (n.size.oriented f.direction).height / 2 + gap ≤
      across' - (n'.size.oriented f.direction).height / 2) :
    f.direction.Precedes gap (n.centerAt (f.toCanvas along across)).rect
      (n'.centerAt (f.toCanvas along' across')).rect := by
  obtain ⟨direction, depth⟩ := f
  cases direction with
  | topToBottom =>
    have h : across + n.size.height / 2 + gap ≤ across' - n'.size.height / 2 := h
    show across - n.size.height / 2 + n.size.height + gap ≤ across' - n'.size.height / 2
    linarith
  | bottomToTop =>
    have h : across + n.size.height / 2 + gap ≤ across' - n'.size.height / 2 := h
    show depth - across' - n'.size.height / 2 + n'.size.height + gap ≤ depth - across - n.size.height / 2
    linarith
  | leftToRight =>
    have h : across + n.size.width / 2 + gap ≤ across' - n'.size.width / 2 := h
    show across - n.size.width / 2 + n.size.width + gap ≤ across' - n'.size.width / 2
    linarith
  | rightToLeft =>
    have h : across + n.size.width / 2 + gap ≤ across' - n'.size.width / 2 := h
    show depth - across' - n'.size.width / 2 + n'.size.width + gap ≤ depth - across - n.size.width / 2
    linarith

/-! ## Bands -/

namespace RowMetrics

variable {m : RowMetrics ℚ} {f : RankFrame ℚ} {layers : List (List Nat)}

/-- The boxes of a band are those of its rank. -/
theorem nodes_bands (m : RowMetrics ℚ) {k : Nat} {b : Band ℚ} (h : (m.bands layers)[k]? = some b) :
    layers[k]? = some b.nodes := by
  have hbands : (m.bands layers).map (·.nodes) = layers := m.bandsFrom_nodes 0 layers
  rw [← hbands, List.getElem?_map, h]
  rfl

/-- A centre lies on the middle line of the band of a rank that its box stands in. -/
theorem mem_centers (hm : m.Sized) {x : Nat × Point ℚ} (hx : x ∈ m.centers f (m.bands layers)) :
    ∃ (k : Nat) (b : Band ℚ) (along : ℚ), (m.bands layers)[k]? = some b ∧ x.1 ∈ b.nodes ∧
      x.2 = f.toCanvas along (b.start + b.thickness / 2) := by
  obtain ⟨b, hb, hx⟩ := List.mem_flatMap.1 hx
  obtain ⟨hnode, along, hpoint⟩ := mem_bandCenters hm hx
  obtain ⟨k, hk⟩ := List.getElem?_of_mem hb
  exact ⟨k, b, along, hk, hnode, hpoint⟩

/-- Bands of higher ranks begin a gap behind the end of those of lower ones. -/
theorem bands_lt (hm : m.Sized) {k k' : Nat} (hk : k < k') {b b' : Band ℚ} (hb : (m.bands layers)[k]? = some b)
    (hb' : (m.bands layers)[k']? = some b') : b.start + b.thickness + m.rankSpacing ≤ b'.start := by
  obtain ⟨hlt, rfl⟩ := List.getElem?_eq_some_iff.1 hb
  obtain ⟨hlt', rfl⟩ := List.getElem?_eq_some_iff.1 hb'
  exact List.pairwise_iff_getElem.1 (bandsFrom_pairwise hm 0 layers) k k' hlt hlt' hk

end RowMetrics

/-! ## Ranks of boxes -/

namespace Diagram

variable {d : Diagram ℚ}

/-- A placed box is centred on the middle line of the band of its rank. -/
theorem exists_band {o : LayoutOptions ℚ} (h : d.Sized) (hn : 0 ≤ o.nodeSpacing) (hr : 0 ≤ o.rankSpacing)
    {u : Nat} {n : TableBox ℚ} (hu : d.nodes[u]? = some n) :
    let m := Placement.rowMetrics o d.nodes
    let bands := m.bands (d.ranking.ordered ℚ).layers
    ∃ b along, bands[d.ranking.ranks.getD u 0]? = some b ∧ u ∈ b.nodes ∧
      (d.place o (d.ranking.ordered ℚ)).nodes[u]? = some ((n.centerAt
        (RankFrame.toCanvas ⟨o.direction, m.depth bands⟩ along (b.start + b.thickness / 2))).shift
          (Placement.ofLayers o (d.ranking.ordered ℚ).layers d.nodes).shift) := by
  intro m bands
  have hlt : u < d.nodes.length := (List.getElem?_eq_some_iff.1 hu).1
  obtain ⟨c, hc, hmem⟩ := Placement.exists_center o d.nodes (d.mem_ordered_layers ℚ hlt)
  obtain ⟨k, b, along, hk, hnode, hpoint⟩ := RowMetrics.mem_centers (Placement.sized_rowMetrics h hn hr) hmem
  have hrank : d.ranking.ranks.getD u 0 = k := (((d.fills_ordered ℚ).mem _ _ (m.nodes_bands hk) u).1 hnode).2
  refine ⟨b, along, hrank ▸ hk, hnode, ?_⟩
  show (Placement.ofLayers o (d.ranking.ordered ℚ).layers d.nodes).nodes[u]? = _
  rw [Placement.getElem_ofLayers, hc, Option.getD_some, hu, Option.map_some, show c = _ from hpoint]

/-- Boxes of higher ranks follow those of lower ones. -/
theorem place_precedes {o : LayoutOptions ℚ} (h : d.Sized) (hn : 0 ≤ o.nodeSpacing) (hr : 0 ≤ o.rankSpacing)
    {u v : Nat} (hrank : d.ranking.ranks.getD u 0 < d.ranking.ranks.getD v 0) {a b : TableBox ℚ}
    (ha : (d.place o (d.ranking.ordered ℚ)).nodes[u]? = some a)
    (hb : (d.place o (d.ranking.ordered ℚ)).nodes[v]? = some b) :
    o.direction.Precedes o.rankSpacing a.rect b.rect := by
  have hbox {k : Nat} {c : TableBox ℚ} (hc : (d.place o (d.ranking.ordered ℚ)).nodes[k]? = some c) :
      ∃ n, d.nodes[k]? = some n := by
    have hk := (Placement.getElem_ofLayers o (d.ranking.ordered ℚ).layers d.nodes k).symm.trans hc
    obtain ⟨n, hn, -⟩ := Option.map_eq_some_iff.1 hk
    exact ⟨n, hn⟩
  obtain ⟨n, hu⟩ := hbox ha
  obtain ⟨n', hv⟩ := hbox hb
  obtain ⟨s, along, hs, hus, ha'⟩ := exists_band h hn hr hu
  obtain ⟨t, along', ht, hvt, hb'⟩ := exists_band h hn hr hv
  cases ha.symm.trans ha'
  cases hb.symm.trans hb'
  have hm := Placement.sized_rowMetrics (o := o) h hn hr
  -- the boxes lie inside their bands, and the bands are the gap apart
  have hgap := RowMetrics.bands_lt hm hrank hs ht
  have hsize := Placement.size_rowMetrics o hu ▸ RowMetrics.height_le_thickness _ hus
  have hsize' := Placement.size_rowMetrics o hv ▸ RowMetrics.height_le_thickness _ hvt
  rw [← (RowMetrics.mem_bandsFrom hm (List.mem_of_getElem? hs)).1] at hsize
  rw [← (RowMetrics.mem_bandsFrom hm (List.mem_of_getElem? ht)).1] at hsize'
  refine Direction.precedes_shift _ (RankFrame.precedes_centerAt ⟨o.direction, _⟩ ?_)
  show _ + (n.size.oriented o.direction).height / 2 + o.rankSpacing ≤ _ - (n'.size.oriented o.direction).height / 2
  have hspacing : (Placement.rowMetrics o d.nodes).rankSpacing = o.rankSpacing := rfl
  rw [hspacing] at hgap
  linarith

/-! ## Relations -/

/-- Some edges lead back from the second box to the first. -/
def Cyclic (d : Diagram ℚ) (u v : Nat) : Prop := ReflTransGen (fun a b => (a, b) ∈ d.pairs) v u

theorem ranks_lt (d : Diagram ℚ) {u v : Nat} (hp : (u, v) ∈ d.pairs) :
    d.ranking.ranks.getD u 0 < d.ranking.ranks.getD v 0 ∨
      d.ranking.ranks.getD v 0 < d.ranking.ranks.getD u 0 ∧ d.Cyclic u v := by
  rcases mem_forward d.proper_pairs hp with h | ⟨h, hreach⟩
  · exact Or.inl (forward_lt d.proper_pairs h)
  · refine Or.inr ⟨forward_lt d.proper_pairs h, ?_⟩
    exact ReflTransGen.mono (fun _ _ => mem_successors.1) _ _ hreach

/-- The two boxes of a relation are apart in the direction of the layout by the gap between ranks, and the near
one comes first unless the relation lies on a cycle. -/
theorem layered_precedes (options : LayoutOptions ℚ) (h : d.Sized) {e : Edge ℚ} (he : e ∈ d.edges) {u v : Nat}
    (hu : d.index? e.source.node = some u) (hv : d.index? e.target.node = some v) (huv : u ≠ v) :
    ∃ a b, (d.layered options).nodes[u]? = some a ∧ (d.layered options).nodes[v]? = some b ∧
      (options.direction.Precedes options.sanitized.rankSpacing a.rect b.rect ∨
        options.direction.Precedes options.sanitized.rankSpacing b.rect a.rect) ∧
      (¬d.Cyclic u v → options.direction.Precedes options.sanitized.rankSpacing a.rect b.rect) := by
  obtain ⟨hul, hvl, -⟩ := d.proper_pairs (u, v) (mem_pairs he hu hv huv)
  have hne : d.nodes.isEmpty = false := by
    rw [List.isEmpty_eq_false_iff]
    exact List.ne_nil_of_length_pos (by omega)
  have hplaced : (d.place options.sanitized (d.ranking.ordered ℚ)).nodes.length = d.nodes.length := by
    simp [place, Placement.ofLayers]
  obtain ⟨w, hw⟩ := (d.place options.sanitized (d.ranking.ordered ℚ)).nodes_fit .standard options.sanitized.padding
  -- both boxes are moved alike once they are placed
  have hnode {k : Nat} (hk : k < d.nodes.length) : ∃ n,
      (d.place options.sanitized (d.ranking.ordered ℚ)).nodes[k]? = some n ∧
        (d.layered options).nodes[k]? = some (n.shift w) := by
    refine ⟨_, List.getElem?_eq_getElem (hplaced ▸ hk), ?_⟩
    unfold layered
    simp only [hne, Bool.false_eq_true, if_false]
    rw [hw, List.getElem?_map, List.getElem?_eq_getElem (hplaced ▸ hk)]
    rfl
  obtain ⟨a, ha, ha'⟩ := hnode hul
  obtain ⟨b, hb, hb'⟩ := hnode hvl
  have hprecedes {i j : Nat} {x y : TableBox ℚ} (hrank : d.ranking.ranks.getD i 0 < d.ranking.ranks.getD j 0)
      (hx : (d.place options.sanitized (d.ranking.ordered ℚ)).nodes[i]? = some x)
      (hy : (d.place options.sanitized (d.ranking.ordered ℚ)).nodes[j]? = some y) :
      options.direction.Precedes options.sanitized.rankSpacing (x.shift w).rect (y.shift w).rect :=
    Direction.precedes_shift w
      (place_precedes (o := options.sanitized) h (Scalar.clamp_nonneg _) (Scalar.clamp_nonneg _) hrank hx hy)
  refine ⟨a.shift w, b.shift w, ha', hb', ?_⟩
  rcases d.ranks_lt (mem_pairs he hu hv huv) with hrank | ⟨hrank, hcyclic⟩
  · exact ⟨Or.inl (hprecedes hrank ha hb), fun _ => hprecedes hrank ha hb⟩
  · exact ⟨Or.inr (hprecedes hrank hb ha), fun hno => absurd hcyclic hno⟩

/-- Two boxes that lead to each other, and a third one that leads to the first. -/
def knotted : Diagram ℚ :=
  { nodes :=
      [{ id := "a", name := "a", position := ⟨0, 0⟩, size := ⟨4, 2⟩, columns := [] },
       { id := "b", name := "b", position := ⟨0, 0⟩, size := ⟨1, 5⟩, columns := [] },
       { id := "c", name := "c", position := ⟨0, 0⟩, size := ⟨3, 3⟩, columns := [] }]
    edges :=
      [{ id := "e", source := ⟨"a", "x"⟩, target := ⟨"b", "x"⟩, type := .manyToOne },
       { id := "f", source := ⟨"b", "x"⟩, target := ⟨"a", "x"⟩, type := .manyToOne },
       { id := "g", source := ⟨"c", "x"⟩, target := ⟨"a", "x"⟩, type := .oneToMany }] }

theorem layered_knotted : knotted.Sized ∧ knotted.pairs = [(0, 1), (1, 0), (2, 0)] ∧ ¬knotted.Cyclic 2 0 ∧
    ∃ a b, (knotted.layered .standard).nodes[2]? = some a ∧ (knotted.layered .standard).nodes[0]? = some b ∧
      Direction.topToBottom.Precedes (LayoutOptions.standard.sanitized.rankSpacing) a.rect b.rect := by
  have hs : knotted.Sized := by
    unfold Sized
    decide
  have hpairs : knotted.pairs = [(0, 1), (1, 0), (2, 0)] := by decide
  have hcyclic : ¬knotted.Cyclic 2 0 := by
    -- whatever the first box leads to is one of the first two
    have hstay : ∀ u, ReflTransGen (fun a b => (a, b) ∈ knotted.pairs) 0 u → u < 2 := by
      intro u h
      induction h with
      | refl => decide
      | tail _ hstep ih =>
        rw [hpairs] at hstep
        simp at hstep
        omega
    intro h
    exact absurd (hstay 2 h) (by decide)
  have he : knotted.edges[2] ∈ knotted.edges := List.getElem_mem _
  obtain ⟨a, b, ha, hb, -, hp⟩ := layered_precedes .standard hs he
    (show knotted.index? "c" = some 2 by decide) (show knotted.index? "a" = some 0 by decide) (by decide)
  exact ⟨hs, hpairs, hcyclic, a, b, ha, hb, hp hcyclic⟩

end Diagram

end Erd

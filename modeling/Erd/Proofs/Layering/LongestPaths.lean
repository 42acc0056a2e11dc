import Erd.Proofs.Layering.Topological

/-!
# Ranks of a diagram

The ranks of a diagram are a layering by longest paths.  Its edges, those that close cycles turned round,
have no cycle; a box that no edge leads to has rank zero, and any other the rank after the greatest of
those that lead to it.

    d.ends? e = some (u, v) ↔ u and v are different and the first boxes of their ids        (ends?_eq_some)
    i ∈ layer r ↔ box i has rank r                                                 (getElem?_layersOf)
    d.ranking turns pairs, and its ranks are longest paths along what it leads to          (ranking_layering)
-/

open Relation (ReflTransGen TransGen)

namespace Erd

/-! ## Pairs -/

namespace Diagram

variable {α : Type} {d : Diagram α}

/-- A box is the first one of an id. -/
def IsFirst (d : Diagram α) (id : String) (u : Nat) : Prop :=
  (d.nodes[u]?.map (·.id)) = some id ∧ ∀ i < u, (d.nodes[i]?.map (·.id)) ≠ some id

theorem index?_eq_some {id : String} {u : Nat} : d.index? id = some u ↔ d.IsFirst id u := by
  unfold index? IsFirst
  rw [List.findIdx?_eq_some_iff_getElem]
  constructor
  · rintro ⟨hlt, hid, hfront⟩
    refine ⟨by simpa [hlt] using hid, fun i hi => ?_⟩
    simpa [hi.trans hlt] using hfront i hi
  · rintro ⟨hid, hfront⟩
    obtain ⟨n, hn, hid⟩ := Option.map_eq_some_iff.1 hid
    obtain ⟨hlt, rfl⟩ := List.getElem?_eq_some_iff.1 hn
    refine ⟨hlt, by simpa using hid, fun i hi => ?_⟩
    simpa [hi.trans hlt] using hfront i hi

/-- An edge joins the first boxes of its ids, if both exist and differ. -/
theorem ends?_eq_some {e : Edge α} {u v : Nat} : d.ends? e = some (u, v) ↔
    d.IsFirst e.source.node u ∧ d.IsFirst e.target.node v ∧ u ≠ v := by
  rw [← index?_eq_some, ← index?_eq_some]
  unfold ends?
  split
  · next a b ha hb =>
    rw [ha, hb]
    split
    · next hab =>
      subst hab
      simp only [reduceCtorEq, false_iff, Option.some.injEq]
      rintro ⟨rfl, rfl, hne⟩
      exact hne rfl
    · next hab =>
      simp only [Option.some.injEq, Prod.mk.injEq]
      constructor
      · rintro ⟨rfl, rfl⟩
        exact ⟨rfl, rfl, hab⟩
      · rintro ⟨rfl, rfl, -⟩
        exact ⟨rfl, rfl⟩
  · next hnone =>
    simp only [reduceCtorEq, false_iff]
    rintro ⟨hu, hv, -⟩
    exact hnone u v hu hv

theorem ends?_eq_none {e : Edge α} : d.ends? e = none ↔ d.index? e.source.node = none ∨
    d.index? e.target.node = none ∨ d.index? e.source.node = d.index? e.target.node := by
  unfold ends?
  split
  · next u v hu hv => simp [hu, hv]
  · next hnone =>
    simp only [true_iff]
    cases hu : d.index? e.source.node with
    | none => exact Or.inl rfl
    | some u =>
      cases hv : d.index? e.target.node with
      | none => exact Or.inr (Or.inl rfl)
      | some v => exact absurd hv (hnone u v hu)

theorem IsFirst.lt {id : String} {u : Nat} (h : d.IsFirst id u) : u < d.nodes.length := by
  obtain ⟨n, hn, -⟩ := Option.map_eq_some_iff.1 h.1
  exact (List.getElem?_eq_some_iff.1 hn).1

theorem proper_pairs (d : Diagram α) : Proper d.nodes.length d.pairs := by
  rintro ⟨u, v⟩ hp
  obtain ⟨e, -, he⟩ := List.mem_filterMap.1 hp
  obtain ⟨hu, hv, hne⟩ := ends?_eq_some.1 he
  exact ⟨hu.lt, hv.lt, hne⟩

/-- An edge between two different boxes is among the pairs. -/
theorem mem_pairs {e : Edge α} (he : e ∈ d.edges) {u v : Nat} (hu : d.index? e.source.node = some u)
    (hv : d.index? e.target.node = some v) (huv : u ≠ v) : (u, v) ∈ d.pairs :=
  List.mem_filterMap.2 ⟨e, he, ends?_eq_some.2 ⟨index?_eq_some.1 hu, index?_eq_some.1 hv, huv⟩⟩

end Diagram

/-! ## Boxes of a rank -/

theorem getElem?_layersOf {ranks : Array Nat} {r : Nat} {layer : List Nat} (h : (layersOf ranks)[r]? = some layer) :
    layer = (List.range ranks.size).filter fun i => ranks[i]? == some r := by
  unfold layersOf at h
  rw [List.getElem?_map] at h
  obtain ⟨r', hr, rfl⟩ := Option.map_eq_some_iff.1 h
  obtain ⟨-, rfl⟩ := List.getElem?_eq_some_iff.1 hr
  simp

theorem mem_layersOf {ranks : Array Nat} {r i : Nat} {layer : List Nat} (h : (layersOf ranks)[r]? = some layer) :
    i ∈ layer ↔ i < ranks.size ∧ ranks.getD i 0 = r := by
  rw [getElem?_layersOf h, List.mem_filter, List.mem_range, beq_iff_eq, Array.getD_eq_getD_getElem?]
  refine and_congr_right fun hi => ?_
  simp [hi]

theorem sorted_layersOf {ranks : Array Nat} {r : Nat} {layer : List Nat} (h : (layersOf ranks)[r]? = some layer) :
    layer.Pairwise (· < ·) := by
  rw [getElem?_layersOf h]
  exact List.pairwise_lt_range.filter _

/-- There are as many ranks as the highest one needs. -/
theorem length_layersOf_lt {ranks : Array Nat} {r : Nat} :
    r < (layersOf ranks).length ↔ ∃ i < ranks.size, r ≤ ranks.getD i 0 := by
  have hlength : (layersOf ranks).length = (ranks.toList.map fun n => n + 1).foldl max 0 := by
    unfold layersOf
    rw [List.length_map, List.length_range, ← Array.foldl_toList, Array.toList_map]
  rw [hlength]
  constructor
  · intro hr
    rcases foldl_max_cases (ranks.toList.map fun n => n + 1) 0 with h | h
    · omega
    · obtain ⟨n, hn, heq⟩ := List.mem_map.1 h
      obtain ⟨i, hi, rfl⟩ := Array.getElem_of_mem (Array.mem_toList_iff.1 hn)
      refine ⟨i, hi, ?_⟩
      rw [Array.getD_eq_getD_getElem?, Array.getElem?_eq_getElem hi, Option.getD_some]
      omega
  · rintro ⟨i, hi, hr⟩
    rw [Array.getD_eq_getD_getElem?, Array.getElem?_eq_getElem hi, Option.getD_some] at hr
    have hmem : ranks[i] + 1 ∈ ranks.toList.map fun n => n + 1 := by simp
    have hle := (le_foldl_max _ 0).2 _ hmem
    omega

/-- Each rank holds the boxes of that rank, and at least one. -/
structure Fills (count : Nat) (rank : Nat → Nat) (layers : List (List Nat)) : Prop where
  mem : ∀ k layer, layers[k]? = some layer → ∀ i, i ∈ layer ↔ i < count ∧ rank i = k
  inhabited : [] ∉ layers
  complete : ∀ i < count, rank i < layers.length

/-- Each box stands in its rank. -/
theorem Fills.exists_layer {count : Nat} {rank : Nat → Nat} {layers : List (List Nat)} (h : Fills count rank layers)
    {i : Nat} (hi : i < count) : ∃ layer, layers[rank i]? = some layer ∧ i ∈ layer := by
  have hlayer := List.getElem?_eq_getElem (h.complete i hi)
  exact ⟨_, hlayer, (h.mem _ _ hlayer i).2 ⟨hi, rfl⟩⟩

/-! ## Ranking -/

namespace Ranking

def rank (r : Ranking) (u : Nat) : Nat := r.ranks.getD u 0

/-- Each edge is a pair as it is or turned round, pairs that are equal alike, and those turned round lie on a
cycle. -/
def Turns (pairs : List (Nat × Nat)) (r : Ranking) : Prop :=
  ∃ turned : Nat × Nat → Bool, r.edges = (pairs.map fun p => if turned p then p.swap else p) ∧
    ∀ u v, turned (u, v) = true → (u, v) ∈ pairs ∧ ReflTransGen (fun a b => (a, b) ∈ pairs) v u

/-- A layering of boxes by the longest paths along edges without cycles. -/
structure Layering (count : Nat) (r : Ranking) : Prop where
  acyclic : ∀ u, ¬TransGen (fun a b => (a, b) ∈ r.edges) u u
  size : r.ranks.size = count
  first : ∀ v, (∀ u, (u, v) ∉ r.edges) → r.rank v = 0
  next : ∀ v, (∃ u, (u, v) ∈ r.edges) →
    ∃ u, (u, v) ∈ r.edges ∧ r.rank v = r.rank u + 1 ∧ ∀ w, (w, v) ∈ r.edges → r.rank w ≤ r.rank u
  rises : ∀ u v, (u, v) ∈ r.edges → r.rank u < r.rank v
  /-- The edges have an order of all boxes in which they lead ahead, and in each such order boxes that raise one
  another reach these ranks. -/
  sorted : ∃ order, Topological count r.edges order
  raised : ∀ order, Topological count r.edges order →
    order.foldl (raise r.edges) (Array.replicate count 0) = r.ranks
  inhabited : [] ∉ r.layers
  increasing : ∀ layer ∈ r.layers, layer.Pairwise (· < ·)
  complete : ∀ i < count, r.rank i < r.layers.length
  layers : ∀ k layer, r.layers[k]? = some layer → ∀ i, i ∈ layer ↔ i < count ∧ r.rank i = k

theorem turns_ofPairs {count : Nat} {pairs : List (Nat × Nat)} (h : Proper count pairs) :
    Turns pairs (ofPairs count pairs) := by
  have hcycle := (Search.run_spec h.loopless).1.cycle
  refine ⟨(Search.run count (successors pairs)).closing.contains, List.map_congr_left fun _ _ => rfl, fun u v huv => ?_⟩
  obtain ⟨hv, hreach⟩ := hcycle u v (List.contains_iff_mem.1 huv)
  exact ⟨mem_successors.1 hv, ReflTransGen.mono (fun _ _ => mem_successors.1) _ _ hreach⟩

theorem layering_ofPairs {count : Nat} {pairs : List (Nat × Nat)} (h : Proper count pairs) :
    Layering count (ofPairs count pairs) := by
  have hsorted := topological_finished h
  have hsize : (longest count (forward count pairs)).size = count := size_longest count _
  refine
    { acyclic := hsorted.acyclic
      size := hsize
      first := fun v => (hsorted.longest_above v).eq_zero
      next := fun v ⟨u, hu⟩ => (hsorted.longest_above v).eq_succ hu
      rises := fun u v => hsorted.longest_lt
      sorted := ⟨_, hsorted⟩
      raised := fun order => raised_eq
      inhabited := fun hnil => ?_
      increasing := fun layer hlayer => ?_
      complete := fun i hi => length_layersOf_lt.2 ⟨i, hsize.symm ▸ hi, Nat.le_refl _⟩
      layers := fun k layer hlayer i => (mem_layersOf hlayer).trans (by rw [hsize]; rfl) }
  · -- each rank up to the highest has a box
    obtain ⟨k, hk, hnil⟩ := List.getElem_of_mem hnil
    obtain ⟨v, hv, hle⟩ := length_layersOf_lt.1 hk
    obtain ⟨u, hu, hrank⟩ := hsorted.exists_rank (hsize ▸ hv) hle
    have hmem := (mem_layersOf (List.getElem?_eq_getElem hk)).2 ⟨hsize.symm ▸ hu, hrank⟩
    rw [hnil] at hmem
    cases hmem
  · obtain ⟨k, hk⟩ := List.getElem?_of_mem hlayer
    exact sorted_layersOf hk

end Ranking

namespace Diagram

variable {α : Type} {d : Diagram α}

/-- The ranks hold the boxes that have them, in whatever order, and none is empty. -/
theorem fills_ordered (β : Type) [Scalar β] (d : Diagram α) :
    Fills d.nodes.length d.ranking.rank (d.ranking.ordered β).layers := by
  have hlayering := Ranking.layering_ofPairs d.proper_pairs
  have hsame := d.ranking.sameBoxes_ordered β
  refine ⟨fun k layer hk i => ?_, fun hnil => ?_, fun i hi => hsame.length ▸ hlayering.complete i hi⟩
  · obtain ⟨layer', hlayer, hperm⟩ := hsame.getElem? hk
    exact hperm.mem_iff.symm.trans (hlayering.layers k layer' hlayer i)
  · obtain ⟨k, hk⟩ := List.getElem?_of_mem hnil
    obtain ⟨layer, hlayer, hperm⟩ := hsame.getElem? hk
    exact hlayering.inhabited (hperm.eq_nil ▸ List.mem_of_getElem? hlayer)

/-- The ranking of a diagram is a layering by longest paths along the edges between its boxes, with some edges
that lie on cycles turned round. -/
theorem ranking_layering (d : Diagram α) :
    (∀ e u v, d.ends? e = some (u, v) ↔ d.IsFirst e.source.node u ∧ d.IsFirst e.target.node v ∧ u ≠ v) ∧
    Ranking.Turns (d.edges.filterMap d.ends?) d.ranking ∧ Ranking.Layering d.nodes.length d.ranking :=
  ⟨fun _ _ _ => ends?_eq_some, Ranking.turns_ofPairs d.proper_pairs, Ranking.layering_ofPairs d.proper_pairs⟩

end Diagram

end Erd

import Mathlib.Data.List.Pairwise
import Mathlib.Data.List.Permutation
import Erd.Proofs.Layering.LongestPaths

/-!
# Barycenters

The sweeps keep the places of the boxes in step with the ranks that they sort.  The last sweep goes up, so
that the ranks below a rank are final when it is sorted, and in the end every rank is in the order of the mean
places of the boxes that its own boxes lead to.  Boxes that lead nowhere stand anywhere between.

    o.InStep count rank → (o.reorder α neighbours k).InStep count rank                  (InStep.reorder)
    o.Settled α lower (k + 1) → (o.reorder α lower k).Settled α lower k                (Settled.reorder)
    p before q in a rank of r.ordered α → sortLe (barycenter α p) (barycenter α q)        (ranking_ordered)
-/

namespace Erd

/-! ## Places in a rank -/

namespace LayerOrder

theorem size_zipIdx (layer : List Nat) (k : Nat) (places : Array Nat) :
    ((layer.zipIdx k).foldl (fun places (node, i) => places.setIfInBounds node i) places).size = places.size := by
  induction layer generalizing k places with
  | nil => rfl
  | cons x xs ih => exact (ih _ _).trans Array.size_setIfInBounds

theorem getD_zipIdx {layer : List Nat} (hlayer : layer.Nodup) (k : Nat) {places : Array Nat} {v : Nat}
    (hv : v < places.size) :
    ((layer.zipIdx k).foldl (fun places (node, i) => places.setIfInBounds node i) places).getD v 0 =
      if v ∈ layer then k + layer.idxOf v else places.getD v 0 := by
  induction layer generalizing k places with
  | nil => rfl
  | cons x xs ih =>
    obtain ⟨hx, hxs⟩ := List.nodup_cons.1 hlayer
    rw [List.zipIdx_cons, List.foldl_cons, ih hxs _ (by rwa [Array.size_setIfInBounds]),
      Array.getD_eq_getD_getElem?, Array.getElem?_setIfInBounds]
    by_cases hxv : x = v
    · subst hxv
      simp [hx, hv]
    · by_cases hmem : v ∈ xs
      · simp [hmem, Ne.symm hxv, List.idxOf_cons_ne _ hxv, Nat.add_comm, Nat.add_left_comm]
      · simp [hmem, hxv, Ne.symm hxv, Array.getD_eq_getD_getElem?]

variable {layer : List Nat} {places : Array Nat} {v : Nat}

theorem size_placeAll (places : Array Nat) (layer : List Nat) : (placeAll places layer).size = places.size :=
  size_zipIdx layer 0 places

/-- A box of the list gets its place in it, and no other box moves. -/
theorem getD_placeAll (hlayer : layer.Nodup) (hv : v < places.size) :
    (placeAll places layer).getD v 0 = if v ∈ layer then layer.idxOf v else places.getD v 0 := by
  rw [placeAll, getD_zipIdx hlayer 0 hv, Nat.zero_add]

theorem getD_foldl_of_notMem {layers : List (List Nat)} (hlayers : ∀ layer ∈ layers, layer.Nodup)
    (h : ∀ layer ∈ layers, v ∉ layer) (hv : v < places.size) :
    (layers.foldl placeAll places).getD v 0 = places.getD v 0 := by
  induction layers generalizing places with
  | nil => rfl
  | cons layer rest ih =>
    rw [List.forall_mem_cons] at hlayers h
    rw [List.foldl_cons, ih hlayers.2 h.2 (by rwa [size_placeAll]), getD_placeAll hlayers.1 hv, if_neg h.1]

/-- A box of one of several lists that share none gets its place in that list. -/
theorem getD_foldl_of_mem {layers : List (List Nat)} (hlayers : layers.flatten.Nodup) (hv : v < places.size)
    (hlayer : layer ∈ layers) (h : v ∈ layer) : (layers.foldl placeAll places).getD v 0 = layer.idxOf v := by
  induction layers generalizing places with
  | nil => cases hlayer
  | cons front rest ih =>
    obtain ⟨hfront, hrest, hapart⟩ := List.nodup_append.1 (List.flatten_cons ▸ hlayers)
    have hsize : v < (placeAll places front).size := by rwa [size_placeAll]
    rw [List.foldl_cons]
    rcases List.mem_cons.1 hlayer with rfl | hlayer
    · have hnone : ∀ other ∈ rest, v ∉ other := fun other ho hvo =>
        hapart v h v (List.mem_flatten_of_mem ho hvo) rfl
      rw [getD_foldl_of_notMem (List.nodup_flatten.1 hrest).1 hnone hsize, getD_placeAll hfront hv, if_pos h]
    · exact ih hrest hsize hlayer

/-! ## Ranks in step with places -/

/-- Ranks whose boxes all have that rank, and the place of each box in its rank. -/
structure InStep (count : Nat) (rank : Nat → Nat) (o : LayerOrder) : Prop where
  size : o.places.size = count
  mem : ∀ k layer, o.layers[k]? = some layer → ∀ v ∈ layer, v < count ∧ rank v = k
  nodup : ∀ layer ∈ o.layers, layer.Nodup
  place : ∀ layer ∈ o.layers, ∀ v ∈ layer, o.place v = layer.idxOf v

variable {α : Type} [Scalar α] {count : Nat} {rank : Nat → Nat} {o : LayerOrder} {neighbours : Nat → List Nat} {k : Nat}

theorem InStep.ofLayers {layers : List (List Nat)}
    (hmem : ∀ k layer, layers[k]? = some layer → ∀ v ∈ layer, v < count ∧ rank v = k)
    (hnodup : ∀ layer ∈ layers, layer.Nodup) : (ofLayers count layers).InStep count rank where
  size := by
    show (layers.foldl placeAll (Array.replicate count 0)).size = count
    exact List.foldlRecOn (motive := fun places => places.size = count) layers placeAll Array.size_replicate
      fun places h layer _ => (size_placeAll places layer).trans h
  mem := hmem
  nodup := hnodup
  place layer hlayer v hv := by
    obtain ⟨k, hk⟩ := List.getElem?_of_mem hlayer
    refine getD_foldl_of_mem (List.nodup_flatten.2 ⟨hnodup, ?_⟩) ?_ hlayer hv
    · rw [List.pairwise_iff_getElem]
      intro i j hi hj hij u hui huj
      have hi := (hmem i _ (List.getElem?_eq_getElem hi) u hui).2
      have hj := (hmem j _ (List.getElem?_eq_getElem hj) u huj).2
      omega
    · rw [Array.size_replicate]
      exact (hmem k layer hk v hv).1

/-- A rank stays as it is or is sorted. -/
theorem layer_reorder {j : Nat} (h : (reorder α neighbours o k).layers[j]? = some layer) :
    (j ≠ k ∧ o.layers[j]? = some layer) ∨ (j = k ∧ layer = o.sorted α neighbours (o.layers.getD k [])) := by
  rw [show (reorder α neighbours o k).layers = o.layers.set k _ from rfl, List.getElem?_set] at h
  by_cases hjk : j = k
  · subst hjk
    rw [if_pos rfl] at h
    exact Or.inr ⟨rfl, (Option.some.inj (Option.ite_none_right_eq_some.1 h).2).symm⟩
  · rw [if_neg (Ne.symm hjk)] at h
    exact Or.inl ⟨hjk, h⟩

namespace InStep

/-- The rank that is sorted is one of the ranks, or there is none of its number. -/
theorem nodup_sorted (h : o.InStep count rank) : (o.sorted α neighbours (o.layers.getD k [])).Nodup := by
  rw [(o.sorted_perm α neighbours _).nodup_iff, List.getD_eq_getElem?_getD]
  cases hk : o.layers[k]? with
  | none => exact .nil
  | some layer => exact h.nodup layer (List.mem_of_getElem? hk)

theorem rank_of_mem_sorted (h : o.InStep count rank) {v : Nat} (hv : v ∈ o.sorted α neighbours (o.layers.getD k [])) :
    v < count ∧ rank v = k := by
  rw [(o.sorted_perm α neighbours _).mem_iff, List.getD_eq_getElem?_getD] at hv
  cases hk : o.layers[k]? with
  | none => simp [hk] at hv
  | some layer => exact h.mem k layer hk v (by simpa [hk] using hv)

/-- Sorting one rank moves no box of another. -/
theorem place_reorder (h : o.InStep count rank) {v : Nat} (hv : v < count) (hk : rank v ≠ k) :
    (reorder α neighbours o k).place v = o.place v := by
  have hout : v ∉ o.sorted α neighbours (o.layers.getD k []) := fun hmem => hk (h.rank_of_mem_sorted hmem).2
  show (placeAll o.places _).getD v 0 = o.places.getD v 0
  rw [getD_placeAll h.nodup_sorted (h.size ▸ hv), if_neg hout]

theorem reorder (h : o.InStep count rank) (neighbours : Nat → List Nat) (k : Nat) :
    (reorder α neighbours o k).InStep count rank where
  size := (size_placeAll _ _).trans h.size
  mem j layer hlayer v hv := by
    rcases layer_reorder hlayer with ⟨-, hlayer⟩ | ⟨rfl, rfl⟩
    · exact h.mem j layer hlayer v hv
    · exact h.rank_of_mem_sorted hv
  nodup layer hlayer := by
    obtain ⟨j, hj⟩ := List.getElem?_of_mem hlayer
    rcases layer_reorder hj with ⟨-, hj⟩ | ⟨rfl, rfl⟩
    · exact h.nodup layer (List.mem_of_getElem? hj)
    · exact h.nodup_sorted
  place layer hlayer v hv := by
    obtain ⟨j, hj⟩ := List.getElem?_of_mem hlayer
    rcases layer_reorder hj with ⟨hjk, hj⟩ | ⟨rfl, rfl⟩
    · obtain ⟨hcount, hrank⟩ := h.mem j layer hj v hv
      rw [h.place_reorder hcount (hrank ▸ hjk)]
      exact h.place layer (List.mem_of_getElem? hj) v hv
    · obtain ⟨hcount, -⟩ := h.rank_of_mem_sorted hv
      exact (getD_placeAll h.nodup_sorted (h.size ▸ hcount)).trans (if_pos hv)

theorem foldl (h : o.InStep count rank) (neighbours : Nat → List Nat) (ks : List Nat) :
    (ks.foldl (LayerOrder.reorder α neighbours) o).InStep count rank := by
  induction ks generalizing o with
  | nil => exact h
  | cons k ks ih => exact ih (h.reorder neighbours k)

end InStep

/-! ## Sorted ranks -/

variable (α) in
/-- The mean place of the neighbours of a box. -/
def barycenter (o : LayerOrder) (neighbours : Nat → List Nat) (v : Nat) : α :=
  Scalar.mean ((neighbours v).map o.place)

theorem key_eq {v : Nat} (h : neighbours v ≠ []) : o.key α neighbours v = o.barycenter α neighbours v := by
  unfold key barycenter
  split
  · next hnil => exact absurd hnil h
  · rfl

theorem sorted_pairwise (o : LayerOrder) (neighbours : Nat → List Nat) (layer : List Nat) :
    (o.sorted α neighbours layer).Pairwise fun p q =>
      Scalar.sortLe (o.key α neighbours p) (o.key α neighbours q) = true := by
  have htrans (a b c : α × Nat) := Scalar.sortLe_trans a.1 b.1 c.1
  have htotal (a b : α × Nat) := Scalar.sortLe_total a.1 b.1
  have hpairwise := List.pairwise_mergeSort htrans htotal (layer.map fun v => (o.key α neighbours v, v))
  unfold sorted
  rw [List.pairwise_map]
  refine hpairwise.imp_of_mem fun {a b} ha hb hab => ?_
  have hkey {a : α × Nat} (ha : a ∈ layer.map fun v => (o.key α neighbours v, v)) : o.key α neighbours a.2 = a.1 := by
    obtain ⟨v, -, rfl⟩ := List.mem_map.1 ha
    rfl
  rwa [hkey (List.mem_mergeSort.1 ha), hkey (List.mem_mergeSort.1 hb)]

/-! ## The last sweep -/

variable (α) in
/-- The boxes of a list that have neighbours are in the order of their mean places. -/
def Sorted (neighbours : Nat → List Nat) (o : LayerOrder) (layer : List Nat) : Prop :=
  layer.Pairwise fun p q =>
    neighbours p ≠ [] → neighbours q ≠ [] →
      Scalar.sortLe (o.barycenter α neighbours p) (o.barycenter α neighbours q) = true

variable (α) in
/-- From a rank on all ranks are sorted. -/
def Settled (neighbours : Nat → List Nat) (k : Nat) (o : LayerOrder) : Prop :=
  ∀ j layer, k ≤ j → o.layers[j]? = some layer → o.Sorted α neighbours layer

/-- The neighbours of each box are in ranks below its own. -/
def Below (count : Nat) (rank : Nat → Nat) (neighbours : Nat → List Nat) : Prop :=
  ∀ u, ∀ v ∈ neighbours u, v < count ∧ rank u < rank v

/-- Sorting a rank leaves the means of the boxes from there on as they are. -/
theorem InStep.barycenter_reorder (h : o.InStep count rank) (hbelow : Below count rank neighbours) {u : Nat}
    (hu : k ≤ rank u) :
    (LayerOrder.reorder α neighbours o k).barycenter α neighbours u = o.barycenter α neighbours u := by
  have hplaces : (neighbours u).map (LayerOrder.reorder α neighbours o k).place = (neighbours u).map o.place := by
    refine List.map_congr_left fun v hv => ?_
    obtain ⟨hcount, hlt⟩ := hbelow u v hv
    exact h.place_reorder hcount (Nat.ne_of_gt (hu.trans_lt hlt))
  unfold barycenter
  rw [hplaces]

/-- A rank that is sorted when all below are sorted stays so. -/
theorem Settled.reorder (h : o.InStep count rank) (hbelow : Below count rank neighbours)
    (hs : o.Settled α neighbours (k + 1)) : (LayerOrder.reorder α neighbours o k).Settled α neighbours k := by
  intro j layer hkj hlayer
  have hrank {u : Nat} (hu : u ∈ layer) : k ≤ rank u := ((h.reorder neighbours k).mem j layer hlayer u hu).2 ▸ hkj
  have hsame {u : Nat} (hu : u ∈ layer) := h.barycenter_reorder (α := α) hbelow (hrank hu)
  rcases layer_reorder hlayer with ⟨hne, hlayer⟩ | ⟨rfl, rfl⟩
  · refine (hs j layer (by omega) hlayer).imp_of_mem fun {p q} hp hq hle hpn hqn => ?_
    rw [hsame hp, hsame hq]
    exact hle hpn hqn
  · refine (o.sorted_pairwise neighbours _).imp_of_mem fun {p q} hp hq hle hpn hqn => ?_
    rw [hsame hp, hsame hq, ← key_eq hpn, ← key_eq hqn]
    exact hle

theorem Settled.foldl (h : o.InStep count rank) (hbelow : Below count rank neighbours) (hs : o.Settled α neighbours k) :
    ((List.range k).reverse.foldl (LayerOrder.reorder α neighbours) o).Settled α neighbours 0 := by
  induction k generalizing o with
  | zero => exact hs
  | succ k ih =>
    rw [List.range_succ, List.reverse_append, List.reverse_singleton, List.singleton_append, List.foldl_cons]
    exact ih (h.reorder neighbours k) (hs.reorder h hbelow)

/-- A sweep up sorts all ranks: no box of the last one has a neighbour below. -/
theorem settled_sweepUp (h : o.InStep count rank) (hbelow : Below count rank neighbours)
    (hcomplete : ∀ v < count, rank v < o.layers.length) : (o.sweepUp α neighbours).Settled α neighbours 0 := by
  refine Settled.foldl h hbelow fun j layer hj hlayer => List.pairwise_of_forall_mem_list fun p hp q _ hpn => ?_
  obtain ⟨v, hv⟩ := List.exists_mem_of_ne_nil _ hpn
  obtain ⟨hcount, hlt⟩ := hbelow p v hv
  have hlast := hcomplete v hcount
  have hrank := (h.mem j layer hlayer p hp).2
  omega

end LayerOrder

namespace Ranking

theorem mem_lower {r : Ranking} {u v : Nat} : v ∈ r.lower u ↔ (u, v) ∈ r.edges := by
  simp [lower]

/-- The place of a box in its rank. -/
def place (r : Ranking) (v : Nat) : Nat := (r.layers.getD (r.rank v) []).idxOf v

variable (α : Type) [Scalar α]

/-- The mean place of the boxes that edges lead to from a box, each as often as edges do. -/
def barycenter (r : Ranking) (u : Nat) : α := Scalar.mean ((r.lower u).map r.place)

variable {count : Nat} {r : Ranking}

theorem Layering.below (h : Layering count r) : LayerOrder.Below count r.rank r.lower := by
  intro u v hv
  obtain ⟨order, horder⟩ := h.sorted
  have he := mem_lower.1 hv
  exact ⟨(horder.bounded he).2, h.rises u v he⟩

theorem Layering.inStep (h : Layering count r) : (LayerOrder.ofLayers r.ranks.size r.layers).InStep count r.rank := by
  rw [h.size]
  refine .ofLayers (fun k layer hk v hv => (h.layers k layer hk v).1 hv) fun layer hlayer => ?_
  exact (h.increasing layer hlayer).imp Nat.ne_of_lt

/-- The order in which all sweeps leave the boxes. -/
def swept (r : Ranking) : LayerOrder := r.sweeps α (.ofLayers r.ranks.size r.layers)

/-- The last sweep goes up. -/
theorem Layering.swept (h : Layering count r) : (r.swept α).InStep count r.rank ∧ (r.swept α).Settled α r.lower 0 := by
  have hdown (o : LayerOrder) (ho : o.InStep count r.rank) : (o.sweepDown α r.upper).InStep count r.rank := ho.foldl _ _
  have hup (o : LayerOrder) (ho : o.InStep count r.rank) : (o.sweepUp α r.lower).InStep count r.rank := ho.foldl _ _
  have hlast := hdown _ (hup _ (hdown _ h.inStep))
  refine ⟨hup _ hlast, LayerOrder.settled_sweepUp hlast h.below fun v hv => ?_⟩
  have hsame (o : LayerOrder) (neighbours : Nat → List Nat) (ks : List Nat) :
      (ks.foldl (LayerOrder.reorder α neighbours) o).layers.length = o.layers.length :=
    (LayerOrder.sameBoxes_foldl α neighbours ks o).length.symm
  unfold LayerOrder.sweepDown LayerOrder.sweepUp
  rw [hsame, hsame, hsame]
  exact h.complete v hv

theorem layers_ordered (r : Ranking) : (r.ordered α).layers = (r.swept α).layers := by
  unfold ordered swept
  dsimp only

theorem rank_ordered (r : Ranking) : (r.ordered α).rank = r.rank := by
  unfold rank ordered
  dsimp only

theorem edges_ordered (r : Ranking) : (r.ordered α).edges = r.edges := by
  unfold ordered
  dsimp only

theorem lower_ordered (r : Ranking) : (r.ordered α).lower = r.lower := by
  unfold lower ordered
  dsimp only

/-- The places that the sweeps keep are those in the ranks. -/
theorem Layering.place_swept (h : Layering count r) {v : Nat} (hv : v < count) :
    (r.swept α).place v = (r.ordered α).place v := by
  have hsame := r.sameBoxes_ordered α
  have hstep := (h.swept α).1
  unfold place
  rw [layers_ordered] at hsame ⊢
  rw [rank_ordered]
  generalize r.swept α = o at hsame hstep ⊢
  have hlt : r.rank v < o.layers.length := hsame.length ▸ h.complete v hv
  have hlayer := List.getElem?_eq_getElem hlt
  obtain ⟨layer, hr, hperm⟩ := hsame.getElem? hlayer
  have hmem := hperm.mem_iff.1 ((h.layers _ _ hr v).2 ⟨hv, rfl⟩)
  rw [List.getD_eq_getElem?_getD, hlayer, Option.getD_some]
  exact hstep.place _ (List.getElem_mem hlt) v hmem

theorem Layering.barycenter_swept (h : Layering count r) (u : Nat) :
    (r.swept α).barycenter α r.lower u = (r.ordered α).barycenter α u := by
  unfold LayerOrder.barycenter barycenter
  rw [lower_ordered, List.map_congr_left fun v hv => h.place_swept α (h.below u v hv).1]

/-- Boxes with edges to others stand in the order of their barycenters. -/
theorem Layering.sorted_ordered (h : Layering count r) {layer : List Nat} (hlayer : layer ∈ (r.ordered α).layers) :
    layer.Pairwise fun p q => (∃ v, (p, v) ∈ (r.ordered α).edges) → (∃ v, (q, v) ∈ (r.ordered α).edges) →
      Scalar.sortLe ((r.ordered α).barycenter α p) ((r.ordered α).barycenter α q) = true := by
  rw [layers_ordered] at hlayer
  rw [edges_ordered]
  have hneighbour {u : Nat} (hu : ∃ v, (u, v) ∈ r.edges) : r.lower u ≠ [] := by
    obtain ⟨v, hv⟩ := hu
    exact List.ne_nil_of_mem (mem_lower.2 hv)
  obtain ⟨k, hk⟩ := List.getElem?_of_mem hlayer
  refine ((h.swept α).2 k layer (Nat.zero_le k) hk).imp fun {p q} hle hp hq => ?_
  rw [← h.barycenter_swept α, ← h.barycenter_swept α]
  exact hle (hneighbour hp) (hneighbour hq)

end Ranking

namespace Diagram

variable {α : Type} [Scalar α]

/-- Ordering keeps ranks and edges and gives every rank its own boxes, those that lead to others in the order of
the mean places of these. -/
theorem ranking_ordered (d : Diagram α) :
    (d.ranking.ordered α).ranks = d.ranking.ranks ∧ (d.ranking.ordered α).edges = d.ranking.edges ∧
      SameBoxes d.ranking.layers (d.ranking.ordered α).layers ∧
        ∀ layer ∈ (d.ranking.ordered α).layers, layer.Pairwise fun p q =>
          (∃ v, (p, v) ∈ (d.ranking.ordered α).edges) → (∃ v, (q, v) ∈ (d.ranking.ordered α).edges) →
            Scalar.sortLe ((d.ranking.ordered α).barycenter α p) ((d.ranking.ordered α).barycenter α q) = true ∧
              Scalar.less ((d.ranking.ordered α).barycenter α q) ((d.ranking.ordered α).barycenter α p) = false := by
  refine ⟨rfl, d.ranking.edges_ordered α, d.ranking.sameBoxes_ordered α, fun layer hlayer => ?_⟩
  have hsorted := (Ranking.layering_ofPairs d.proper_pairs).sorted_ordered α hlayer
  exact hsorted.imp fun hle hp hq => ⟨hle hp hq, Scalar.less_eq_false (hle hp hq)⟩

/-- Two boxes whose edges cross, one of them twice, and a box without edges between them. -/
def crossed : Diagram Float :=
  { nodes :=
      [{ id := "a", name := "a", position := ⟨0, 0⟩, size := ⟨1, 1⟩, columns := [] },
       { id := "b", name := "b", position := ⟨0, 0⟩, size := ⟨1, 1⟩, columns := [] },
       { id := "c", name := "c", position := ⟨0, 0⟩, size := ⟨1, 1⟩, columns := [] },
       { id := "d", name := "d", position := ⟨0, 0⟩, size := ⟨1, 1⟩, columns := [] },
       { id := "e", name := "e", position := ⟨0, 0⟩, size := ⟨1, 1⟩, columns := [] }]
    edges :=
      [{ id := "f", source := ⟨"a", "x"⟩, target := ⟨"e", "x"⟩, type := .manyToOne },
       { id := "g", source := ⟨"c", "x"⟩, target := ⟨"d", "x"⟩, type := .manyToOne },
       { id := "h", source := ⟨"a", "y"⟩, target := ⟨"e", "y"⟩, type := .oneToOne }] }

theorem ranking_crossed :
    crossed.ranking = ⟨#[0, 0, 0, 1, 1], [[0, 1, 2], [3, 4]], [(0, 4), (2, 3), (0, 4)]⟩ := by
  have hpairs : crossed.pairs = [(0, 4), (2, 3), (0, 4)] := by decide
  have hforward : forward 5 [(0, 4), (2, 3), (0, 4)] = [(0, 4), (2, 3), (0, 4)] := by decide
  have hlongest : longest 5 [(0, 4), (2, 3), (0, 4)] = #[0, 0, 0, 1, 1] := by decide +kernel
  have hlayers : layersOf #[0, 0, 0, 1, 1] = [[0, 1, 2], [3, 4]] := by decide +kernel
  show Ranking.ofPairs 5 crossed.pairs = _
  unfold Ranking.ofPairs
  rw [hpairs, hforward]
  dsimp only
  rw [hlongest, hlayers]

/-- The first sweep turns the lower rank round, and then both ranks are in order. -/
theorem sweeps_crossed :
    let r : Ranking := ⟨#[0, 0, 0, 1, 1], [[0, 1, 2], [3, 4]], [(0, 4), (2, 3), (0, 4)]⟩
    r.sweeps Float (.ofLayers 5 r.layers) = ⟨[[0, 1, 2], [4, 3]], #[0, 1, 2, 1, 0]⟩ := by
  intro r
  let first : LayerOrder := ⟨r.layers, #[0, 1, 2, 0, 1]⟩
  let last : LayerOrder := ⟨[[0, 1, 2], [4, 3]], #[0, 1, 2, 1, 0]⟩
  have hturned : LayerOrder.reorder Float r.upper first 1 = last := by
    have hkeys : Scalar.sortLe (first.key Float r.upper 3) (first.key Float r.upper 4) = false := by decide +kernel
    have hsorted : first.sorted Float r.upper [3, 4] = [4, 3] := by simp [LayerOrder.sorted, List.mergeSort, hkeys]
    exact congrArg (fun layer => LayerOrder.mk [[0, 1, 2], layer] (LayerOrder.placeAll first.places layer)) hsorted
  have hlower : LayerOrder.reorder Float r.upper last 1 = last := by
    unfold LayerOrder.reorder LayerOrder.sorted
    rw [List.mergeSort_of_pairwise (by decide +kernel)]
    rfl
  have hupper : LayerOrder.reorder Float r.lower last 0 = last := by
    unfold LayerOrder.reorder LayerOrder.sorted
    rw [List.mergeSort_of_pairwise (by decide +kernel)]
    rfl
  show LayerOrder.reorder Float r.lower (LayerOrder.reorder Float r.upper (LayerOrder.reorder Float r.lower
    (LayerOrder.reorder Float r.upper first 1) 0) 1) 0 = last
  rw [hturned, hupper, hlower, hupper]

theorem ordered_crossed : (crossed.ranking.ordered Float).layers = [[0, 1, 2], [4, 3]] ∧
    (∃ v, (0, v) ∈ (crossed.ranking.ordered Float).edges) ∧ (∃ v, (2, v) ∈ (crossed.ranking.ordered Float).edges) ∧
      Scalar.sortLe ((crossed.ranking.ordered Float).barycenter Float 0)
          ((crossed.ranking.ordered Float).barycenter Float 2) = true ∧
        Scalar.less ((crossed.ranking.ordered Float).barycenter Float 2)
          ((crossed.ranking.ordered Float).barycenter Float 0) = false := by
  have hlayers : (crossed.ranking.ordered Float).layers = [[0, 1, 2], [4, 3]] := by
    rw [ranking_crossed]
    exact congrArg LayerOrder.layers sweeps_crossed
  have hedges : (crossed.ranking.ordered Float).edges = [(0, 4), (2, 3), (0, 4)] := by
    rw [Ranking.edges_ordered, ranking_crossed]
  have hfirst : ∃ v, (0, v) ∈ (crossed.ranking.ordered Float).edges := ⟨4, by rw [hedges]; decide⟩
  have hlast : ∃ v, (2, v) ∈ (crossed.ranking.ordered Float).edges := ⟨3, by rw [hedges]; decide⟩
  have hsorted := crossed.ranking_ordered.2.2.2 [0, 1, 2] (by rw [hlayers]; decide)
  exact ⟨hlayers, hfirst, hlast, (List.pairwise_cons.1 hsorted).1 2 (by decide) hfirst hlast⟩

end Diagram

end Erd

import Erd.Layout.Registry
import Erd.Proofs.Diagram.Structure

/-!
# Layouts read structure and write places

A layout depends on the structure of a diagram alone: wherever boxes stood, edges ran and frames were drawn
before, the result is the same.  And it keeps the structure.  So a drawing laid out once more stays as it is.

    d.bare.layered o = d.layered o,  d.bare.grid o = d.grid o            (layered_bare, grid_bare)
    (d.layered o).bare = d.bare,  (d.grid o).bare = d.bare               (bare_layered, bare_grid)
    d.SameStructure e → d.layout name o = e.layout name o                      (layout_structure)
-/

namespace Erd

variable {α : Type} [Scalar α]

/-! ## Ranks -/

namespace Diagram

section
omit [Scalar α]
variable {d e : Diagram α}

/-- Boxes are looked up by their ids alone. -/
theorem index_congr (h : d.nodes.map (·.id) = e.nodes.map (·.id)) (id : String) : d.index? id = e.index? id := by
  have hids (f : Diagram α) : f.index? id = (f.nodes.map (·.id)).findIdx? (· == id) := by
    rw [List.findIdx?_map]
    rfl
  rw [hids, h, hids]

theorem ends_congr (h : d.nodes.map (·.id) = e.nodes.map (·.id)) (x : Edge α) : d.ends? x = e.ends? x := by
  unfold ends?
  rw [index_congr h, index_congr h]

end

theorem ends_bare (d : Diagram α) (e : Edge α) : d.bare.ends? (e.route []) = d.ends? e := by
  have hids : d.bare.nodes.map (·.id) = d.nodes.map (·.id) := List.map_map
  exact ends_congr hids (e.route [])

theorem pairs_bare (d : Diagram α) : d.bare.pairs = d.pairs := by
  have hends : d.bare.ends? ∘ (fun e : Edge α => e.route []) = d.ends? := funext d.ends_bare
  show (d.edges.map fun e => e.route []).filterMap d.bare.ends? = d.pairs
  rw [List.filterMap_map, hends]
  rfl

theorem ranking_bare (d : Diagram α) : d.bare.ranking = d.ranking := by
  have hlength : d.bare.nodes.length = d.nodes.length := List.length_map _
  unfold ranking
  rw [hlength, pairs_bare]

end Diagram

/-! ## Placed boxes -/

namespace Placement

theorem zipIdx_unplaced (c : Nat → Point α) (nodes : List (TableBox α)) :
    ((nodes.map (·.unplaced)).zipIdx.map fun (n, i) => n.centerAt (c i)) =
      nodes.zipIdx.map fun (n, i) => n.centerAt (c i) := by
  rw [List.zipIdx_map, List.map_map]
  rfl

/-- A placement is the same wherever the boxes stood before. -/
theorem ofLayers_unplaced (o : LayoutOptions α) (layers : List (List Nat)) (nodes : List (TableBox α)) :
    ofLayers o layers (nodes.map (·.unplaced)) = ofLayers o layers nodes := by
  have hmetrics : rowMetrics o (nodes.map (·.unplaced)) = rowMetrics o nodes := by
    unfold rowMetrics
    rw [List.map_map]
    rfl
  unfold ofLayers
  rw [hmetrics]
  dsimp only
  rw [zipIdx_unplaced fun i => (((rowMetrics o nodes).centers ⟨o.direction, (rowMetrics o nodes).depth
    ((rowMetrics o nodes).bands layers)⟩ ((rowMetrics o nodes).bands layers)).lookup i).getD Point.origin]

/-- Placing boxes changes nothing but their places. -/
theorem unplaced_ofLayers (o : LayoutOptions α) (layers : List (List Nat)) (nodes : List (TableBox α)) :
    (ofLayers o layers nodes).nodes.map (·.unplaced) = nodes.map (·.unplaced) := by
  unfold ofLayers
  dsimp only
  rw [List.map_map, List.map_map]
  conv => rhs; rw [← List.zipIdx_map_fst 0 nodes, List.map_map]
  rfl

end Placement

namespace Diagram

theorem unframed_place_bare (d : Diagram α) (o : LayoutOptions α) (r : Ranking) :
    (d.bare.place o r).unframed = (d.place o r).unframed := by
  have hnodes : Placement.ofLayers o r.layers d.bare.nodes = Placement.ofLayers o r.layers d.nodes :=
    Placement.ofLayers_unplaced o r.layers d.nodes
  have hgroups : (d.groups.map (·.unframed)).map (·.unframed) = d.groups.map (·.unframed) := List.map_map
  unfold place
  rw [hnodes]
  unfold unframed
  dsimp only
  rw [show d.bare.groups = d.groups.map (·.unframed) from rfl, hgroups,
    show d.bare.edges = d.edges.map (·.route []) from rfl, List.map_map]
  simp only [Function.comp_def, ends_bare]
  rfl

theorem bare_place (d : Diagram α) (o : LayoutOptions α) (r : Ranking) : (d.place o r).bare = d.bare := by
  unfold place bare unframed
  dsimp only
  rw [Placement.unplaced_ofLayers, List.map_map]
  rfl

/-! ## The layered layout -/

/-- Without boxes no edge has two ends, so all ways are empty. -/
theorem place_of_isEmpty {d : Diagram α} (h : d.nodes.isEmpty = true) (o : LayoutOptions α) (r : Ranking) :
    d.place o r = d.clearRoutes := by
  have hnil : d.nodes = [] := List.isEmpty_iff.1 h
  have hends (e : Edge α) : d.ends? e = none := by
    unfold ends? index?
    rw [hnil]
    rfl
  unfold place clearRoutes Placement.ofLayers
  simp only [hends, hnil]
  rfl

/-- The layered layout is a placement in a frame, also without boxes. -/
theorem layered_eq (options : LayoutOptions α) (d : Diagram α) : d.layered options =
    (d.place options.sanitized (d.ranking.ordered α)).fit .standard options.sanitized.padding := by
  unfold layered
  dsimp only
  split
  · next h => rw [place_of_isEmpty h]
  · rfl

theorem layered_bare (options : LayoutOptions α) (d : Diagram α) : d.bare.layered options = d.layered options := by
  rw [layered_eq, layered_eq, ranking_bare]
  exact fit_congr (d.unframed_place_bare options.sanitized (d.ranking.ordered α))

theorem bare_layered (options : LayoutOptions α) (d : Diagram α) : (d.layered options).bare = d.bare := by
  rw [layered_eq, bare_fit, bare_place]

end Diagram

/-! ## The grid layout -/

theorem gridFrom_unplaced (o : LayoutOptions α) (columns i : Nat) (c : GridCursor α) (nodes : List (TableBox α)) :
    gridFrom o columns i c (nodes.map (·.unplaced)) = gridFrom o columns i c nodes := by
  induction nodes generalizing i c with
  | nil => rfl
  | cons n rest ih => exact congrArg (List.cons _) (ih _ _)

theorem unplaced_gridFrom (o : LayoutOptions α) (columns i : Nat) (c : GridCursor α) (nodes : List (TableBox α)) :
    (gridFrom o columns i c nodes).map (·.unplaced) = nodes.map (·.unplaced) := by
  induction nodes generalizing i c with
  | nil => rfl
  | cons n rest ih => exact congrArg (n.unplaced :: ·) (ih _ _)

namespace Diagram

theorem grid_bare (options : LayoutOptions α) (d : Diagram α) : d.bare.grid options = d.grid options := by
  have hlength : d.bare.nodes.length = d.nodes.length := List.length_map _
  have hgroups : (d.groups.map (·.unframed)).map (·.unframed) = d.groups.map (·.unframed) := List.map_map
  have hedges : (d.edges.map (·.route [])).map (·.route []) = d.edges.map (·.route []) := List.map_map
  unfold grid
  dsimp only
  rw [hlength, show d.bare.nodes = d.nodes.map (·.unplaced) from rfl, gridFrom_unplaced]
  refine fit_congr ?_
  unfold unframed clearRoutes
  dsimp only
  rw [show d.bare.groups = d.groups.map (·.unframed) from rfl, hgroups,
    show d.bare.edges = d.edges.map (·.route []) from rfl, hedges]
  rfl

theorem bare_grid (options : LayoutOptions α) (d : Diagram α) : (d.grid options).bare = d.bare := by
  have hedges : (d.edges.map (·.route [])).map (·.route []) = d.edges.map (·.route []) := List.map_map
  unfold grid
  rw [bare_fit]
  unfold bare unframed clearRoutes
  dsimp only
  rw [unplaced_gridFrom, hedges]

end Diagram

/-! ## Built-in engines -/

namespace Registry

theorem standard_get {name : String} {e : Engine α} (h : (standard : Registry α).get? name = some e) :
    e = .layered ∨ e = .grid := by
  have hengines : (standard : Registry α).engines = [.layered, .grid] := rfl
  have hmem : e ∈ (standard : Registry α).engines := List.mem_of_find?_eq_some h
  rw [hengines] at hmem
  simpa using hmem

/-- Every name stands for one of the two built-in engines. -/
theorem standard_resolve (name : Option String) :
    (standard : Registry α).resolve name = .layered ∨ (standard : Registry α).resolve name = .grid := by
  unfold resolve
  split
  · next e h =>
    obtain ⟨n, -, hn⟩ := Option.bind_eq_some_iff.1 h
    exact standard_get hn
  · exact Or.inl rfl

theorem layout_bare (name : Option String) (options : LayoutOptions α) (m : Metrics α) (d : Diagram α) :
    standard.layout name options m d.bare = standard.layout name options m d := by
  unfold layout
  rcases standard_resolve (α := α) name with h | h
  · rw [h]
    exact congrArg (·.fit m options.sanitized.padding) (d.layered_bare options.sanitized)
  · rw [h]
    exact congrArg (·.fit m options.sanitized.padding) (d.grid_bare options.sanitized)

theorem bare_layout (name : Option String) (options : LayoutOptions α) (m : Metrics α) (d : Diagram α) :
    (standard.layout name options m d).bare = d.bare := by
  unfold layout
  rw [Diagram.bare_fit]
  rcases standard_resolve (α := α) name with h | h
  · rw [h]
    exact d.bare_layered options.sanitized
  · rw [h]
    exact d.bare_grid options.sanitized

end Registry

namespace Diagram

/-- A layout depends on the structure of a diagram alone and keeps it, so laying out once more changes nothing. -/
theorem layout_structure (name : Option String) (options : LayoutOptions α) :
    (∀ d e : Diagram α, d.SameStructure e → d.layout name options = e.layout name options) ∧
      (∀ d : Diagram α, (d.layout name options).SameStructure d) ∧
        ∀ d : Diagram α, (d.layout name options).layout name options = d.layout name options := by
  have hreads (d e : Diagram α) (h : d.SameStructure e) : d.layout name options = e.layout name options := by
    unfold layout
    rw [← Registry.layout_bare, show d.bare = e.bare from h, Registry.layout_bare]
  have hkeeps (d : Diagram α) : (d.layout name options).SameStructure d := Registry.bare_layout name options _ d
  exact ⟨hreads, hkeeps, fun d => hreads _ d (hkeeps d)⟩

/-- Two boxes with an edge and a group, at some places. -/
def pairAt (a b : Point Float) (points : List (Point Float)) (bounds : Option (Rect Float)) : Diagram Float :=
  { nodes :=
      [{ id := "a", name := "a", position := a, size := ⟨4, 2⟩, columns := [] },
       { id := "b", name := "b", position := b, size := ⟨3, 5⟩, columns := [] }]
    edges := [{ id := "e", source := ⟨"a", "x"⟩, target := ⟨"b", "x"⟩, type := .manyToOne, points }]
    groups := [{ id := "g", name := "g", members := ["b"], bounds }]
    bounds }

theorem layout_pairAt :
    (pairAt ⟨7, 1⟩ ⟨0, 9⟩ [⟨7, 1⟩, ⟨0, 9⟩] (some ⟨0, 0, 8, 9⟩)).SameStructure (pairAt ⟨0, 0⟩ ⟨0, 0⟩ [] none) ∧
      (pairAt ⟨7, 1⟩ ⟨0, 9⟩ [⟨7, 1⟩, ⟨0, 9⟩] (some ⟨0, 0, 8, 9⟩)).layout (some "grid") .standard =
        (pairAt ⟨0, 0⟩ ⟨0, 0⟩ [] none).layout (some "grid") .standard := by
  have hs : (pairAt ⟨7, 1⟩ ⟨0, 9⟩ [⟨7, 1⟩, ⟨0, 9⟩] (some ⟨0, 0, 8, 9⟩)).SameStructure
      (pairAt ⟨0, 0⟩ ⟨0, 0⟩ [] none) := rfl
  exact ⟨hs, (layout_structure (some "grid") .standard).1 _ _ hs⟩

end Diagram

end Erd

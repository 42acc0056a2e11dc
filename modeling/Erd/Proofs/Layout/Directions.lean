import Erd.Proofs.Layout.Structure
import Erd.Proofs.Layout.Turns

/-!
# Layouts in the four directions

The layered layouts of a diagram in the four directions show one drawing.  Bottom to top is top to bottom
reflected in `y`, and right to left is left to right reflected in `x`, both without a move along the other axis.
Left to right is top to bottom with the axes exchanged, for boxes whose widths and heights are exchanged.

    d.place (o.toward a.opposite) r is, without frames, (mirror a.axis k).image (d.place (o.toward a) r)
    the same of layered layouts, which are framed                                   (layered_opposite)
    d.OneDrawing o Diagram.layered, and the same of the default engine             (oneDrawing_layout)
-/

namespace Erd

/-! ## Definitions -/

namespace Diagram

/-- The diagram with the width and the height of every box exchanged. -/
def turned (d : Diagram ℚ) : Diagram ℚ :=
  { d with nodes := d.nodes.map fun n => { n with size := ⟨n.size.height, n.size.width⟩ } }

/-- The layouts of a diagram in the four directions draw all of it, and they are images of each other, box by box
and point by point. -/
structure OneDrawing (d : Diagram ℚ) (o : LayoutOptions ℚ) (arrange : LayoutOptions ℚ → Diagram ℚ → Diagram ℚ) :
    Prop where
  kept : ∀ a, (arrange (o.toward a) d).SameStructure d
  vertical : ∃ k, (arrange (o.toward .bottomToTop) d).unframed =
    (Symmetry.mirror .y k).image (arrange (o.toward .topToBottom) d)
  horizontal : ∃ k, (arrange (o.toward .rightToLeft) d).unframed =
    (Symmetry.mirror .x k).image (arrange (o.toward .leftToRight) d)
  diagonal : ∃ v, (arrange (o.toward .leftToRight) d).unframed =
    (Symmetry.transpose v).image (arrange (o.toward .topToBottom) d.turned)

/-! ## Placed diagrams -/

/-- The ways of edges follow the boxes, whatever sizes the boxes have. -/
theorem place_image {σ : Symmetry} {d : Diagram ℚ} {nodes : List (TableBox ℚ)}
    (hids : nodes.map (·.id) = d.nodes.map (·.id)) {o o' : LayoutOptions ℚ} {r : Ranking}
    (h : σ.Carries (.ofLayers o r.layers d.nodes) (.ofLayers o' r.layers nodes)) :
    (Diagram.place { d with nodes } o' r).unframed = σ.image (d.place o r) := by
  have hends (x : Edge ℚ) : Diagram.ends? { d with nodes } x = d.ends? x := ends_congr hids x
  have hedges : (Diagram.place { d with nodes } o' r).edges = (d.place o r).edges.map σ.edge := by
    unfold place
    dsimp only
    rw [List.map_map]
    refine List.map_congr_left fun x _ => congrArg x.route ?_
    dsimp only [Edge.route]
    rw [hends]
    cases d.ends? x with
    | none => rfl
    | some p => exact Placement.wayBetween_image h r.ranks p.1 p.2
  have hnodes : (Diagram.place { d with nodes } o' r).nodes = (d.place o r).nodes.map σ.box := h.nodes
  unfold Symmetry.image
  rw [← hnodes, ← hedges]
  rfl

theorem place_opposite (o : LayoutOptions ℚ) (a : Direction) (d : Diagram ℚ) :
    ∃ k, (d.place (o.toward a.opposite) (d.ranking.ordered ℚ)).unframed =
      (Symmetry.mirror a.axis k).image (d.place (o.toward a) (d.ranking.ordered ℚ)) := by
  obtain ⟨k, hk⟩ := Placement.carries_opposite a o fun i (hi : i < d.nodes.length) => d.mem_ordered_layers ℚ hi
  exact ⟨k, place_image rfl hk⟩

theorem ids_turned (d : Diagram ℚ) : d.nodes.map (·.id) = d.turned.nodes.map (·.id) := by
  unfold turned
  rw [List.map_map]
  rfl

theorem ranking_turned (d : Diagram ℚ) : d.turned.ranking = d.ranking := by
  have hends : d.turned.ends? = d.ends? := funext fun x => ends_congr d.ids_turned.symm x
  have hlength : d.turned.nodes.length = d.nodes.length := List.length_map _
  unfold ranking pairs
  rw [hlength, hends]
  rfl

theorem place_turned (o : LayoutOptions ℚ) (d : Diagram ℚ) :
    ∃ v, (d.place (o.toward .leftToRight) (d.ranking.ordered ℚ)).unframed =
      (Symmetry.transpose v).image (d.turned.place (o.toward .topToBottom) (d.turned.ranking.ordered ℚ)) := by
  have hnodes : d.turned.nodes.map (Symmetry.transpose ⟨0, 0⟩).resize = d.nodes := by
    unfold turned
    rw [List.map_map]
    exact List.map_id' d.nodes
  obtain ⟨v, hv⟩ := Placement.carries_transpose o fun i (hi : i < d.turned.nodes.length) =>
    d.turned.mem_ordered_layers ℚ hi
  rw [hnodes, ranking_turned] at hv
  rw [ranking_turned]
  exact ⟨v, place_image (d := d.turned) d.ids_turned hv⟩

/-! ## Layouts -/

theorem layered_opposite (o : LayoutOptions ℚ) (a : Direction) (d : Diagram ℚ) :
    ∃ k, (d.layered (o.toward a.opposite)).unframed = (Symmetry.mirror a.axis k).image (d.layered (o.toward a)) := by
  obtain ⟨k, hk⟩ := d.place_opposite o.sanitized a
  rw [layered_eq, layered_eq]
  exact Symmetry.fit_mirror hk .standard o.sanitized.padding

theorem layered_turned (o : LayoutOptions ℚ) (d : Diagram ℚ) :
    ∃ v, (d.layered (o.toward .leftToRight)).unframed =
      (Symmetry.transpose v).image (d.turned.layered (o.toward .topToBottom)) := by
  obtain ⟨v, hv⟩ := d.place_turned o.sanitized
  rw [layered_eq, layered_eq]
  exact Symmetry.fit_transpose hv .standard o.sanitized.padding

/-- The layered layouts in the four directions are images of each other. -/
theorem oneDrawing_layered (o : LayoutOptions ℚ) (d : Diagram ℚ) : d.OneDrawing o fun o d => d.layered o where
  kept a := bare_layered (o.toward a) d
  vertical := d.layered_opposite o .topToBottom
  horizontal := d.layered_opposite o .leftToRight
  diagonal := d.layered_turned o

/-- Images remain images if they are framed once more. -/
theorem OneDrawing.fit {d : Diagram ℚ} {o : LayoutOptions ℚ} {arrange : LayoutOptions ℚ → Diagram ℚ → Diagram ℚ}
    (h : d.OneDrawing o arrange) (m : Metrics ℚ) (padding : ℚ) :
    d.OneDrawing o fun o d => (arrange o d).fit m padding where
  kept a := (bare_fit m padding _).trans (h.kept a)
  vertical := h.vertical.elim fun _ hk => Symmetry.fit_mirror hk m padding
  horizontal := h.horizontal.elim fun _ hk => Symmetry.fit_mirror hk m padding
  diagonal := h.diagonal.elim fun _ hv => Symmetry.fit_transpose hv m padding

theorem layout_default (o : LayoutOptions ℚ) (m : Metrics ℚ) (d : Diagram ℚ) :
    Registry.standard.layout (some defaultEngineName) o m d = (d.layered o.sanitized).fit m o.sanitized.padding := rfl

/-- The layouts in the four directions are one drawing, also as the default engine frames them. -/
theorem oneDrawing_layout (o : LayoutOptions ℚ) (m : Metrics ℚ) (d : Diagram ℚ) :
    d.OneDrawing o (fun o d => d.layered o) ∧
      d.OneDrawing o fun o d => Registry.standard.layout (some defaultEngineName) o m d := by
  -- the options are sanitized in every direction alike
  obtain ⟨hk, hv, hh, hd⟩ := (d.oneDrawing_layered o.sanitized).fit m o.sanitized.padding
  refine ⟨d.oneDrawing_layered o, ?_⟩
  simp only [layout_default]
  exact ⟨hk, hv, hh, hd⟩

end Diagram

end Erd

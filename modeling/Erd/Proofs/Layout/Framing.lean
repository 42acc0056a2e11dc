import Erd.Proofs.Layout.Grid
import Erd.Proofs.Layout.Structure

/-!
# Frames on frames

A frame moves a drawing so that it begins at the padding, and wherever the drawing was moved to before, it
comes to stand at the same place.  So of several frames on a drawing only the last one counts, whatever the
metrics and paddings of the others were, and the frames of the engines leave no trace in a layout.

    (d.shift v).start? a m = (d.start? a m).map (v.on a + ·)                                   (start_shift)
    (d.shift v).fit m padding = d.fit m padding                                                  (fit_shift)
    (d.fit m' padding').fit m padding = d.fit m padding                                            (fit_fit)
-/

namespace Erd

/-! ## Least values -/

theorem least_eq_min (xs : List ℚ) : least? xs = xs.min? := by
  cases xs with
  | nil => rfl
  | cons x xs =>
    rw [List.min?_cons']
    exact congrArg (fun f => some (xs.foldl f x)) (funext fun a => funext fun b => Scalar.smaller_eq a b)

theorem least_add (t : ℚ) (xs : List ℚ) : least? (xs.map (t + ·)) = (least? xs).map (t + ·) := by
  cases xs with
  | nil => rfl
  | cons x xs =>
    have hmin (a b : ℚ) : Scalar.smaller (t + a) (t + b) = t + Scalar.smaller a b := by
      rw [Scalar.smaller_eq, Scalar.smaller_eq, min_add_add_left]
    show some ((xs.map (t + ·)).foldl Scalar.smaller (t + x)) = some (t + xs.foldl Scalar.smaller x)
    rw [List.foldl_map, List.foldl_hom (t + ·) fun a b => hmin a b]

namespace Diagram

/-! ## Where drawings begin -/

/-- Where all that the bounds enclose begins on an axis, if there is anything. -/
def start? (a : Axis) (m : Metrics ℚ) (d : Diagram ℚ) : Option ℚ :=
  least? ((content d.nodes (d.groups.map (·.reframe m d.nodes))).map (·.corner.on a))

/-- A drawing with boxes begins somewhere. -/
theorem exists_start {d : Diagram ℚ} (h : d.nodes ≠ []) (a : Axis) (m : Metrics ℚ) : ∃ t, d.start? a m = some t := by
  obtain ⟨n, rest, hn⟩ := List.exists_cons_of_ne_nil h
  unfold start? content
  rw [hn]
  exact ⟨_, rfl⟩

theorem on_offset_of_start {a : Axis} {m : Metrics ℚ} {d : Diagram ℚ} {t : ℚ} (h : d.start? a m = some t)
    (padding : ℚ) : (d.offset m padding).on a = padding - t := by
  rw [on_offset, show least? _ = some t from h]
  exact neg_sub t padding

theorem places_shift (a : Axis) (v : Point ℚ) (d : Diagram ℚ) :
    (d.shift v).places a = (d.places a).map fun n => (n.1, v.on a + n.2) := by
  unfold places shift
  dsimp only
  rw [List.map_map, List.map_map]
  exact List.map_congr_left fun n _ => congrArg (n.id, ·) (Point.on_shift a v n.position)

theorem start_frame_shift (a : Axis) (m : Metrics ℚ) (t : ℚ) (places : List (String × ℚ)) (members : List String) :
    GroupFrame.start? a m (places.map fun n => (n.1, t + n.2)) members =
      (GroupFrame.start? a m places members).map (t + ·) := by
  have hmembers : ((places.map fun n => (n.1, t + n.2)).filter fun n => members.contains n.1).map (·.2) =
      ((places.filter fun n => members.contains n.1).map (·.2)).map (t + ·) := by
    rw [List.filter_map, List.map_map, List.map_map]
    rfl
  unfold GroupFrame.start?
  rw [hmembers, least_add, Option.map_map, Option.map_map]
  exact congrArg (Option.map · _) (funext fun s => add_sub_assoc t s _)

/-- A drawing that is moved begins so much further. -/
theorem start_shift (a : Axis) (m : Metrics ℚ) (v : Point ℚ) (d : Diagram ℚ) :
    (d.shift v).start? a m = (d.start? a m).map (v.on a + ·) := by
  have hframes : (d.groups.map (·.members)).filterMap (GroupFrame.start? a m ((d.shift v).places a)) =
      ((d.groups.map (·.members)).filterMap (GroupFrame.start? a m (d.places a))).map (v.on a + ·) := by
    rw [places_shift, List.map_filterMap]
    exact congrArg (List.filterMap · _) (funext fun members => start_frame_shift a m (v.on a) (d.places a) members)
  unfold start?
  rw [corner_content, corner_content, show (d.shift v).groups = d.groups from rfl, hframes, places_shift,
    ← least_add, List.map_append, List.map_map, List.map_map]
  rfl

/-! ## One frame -/

theorem shift_shift (v w : Point ℚ) (d : Diagram ℚ) : (d.shift v).shift w = d.shift (v.shift w) := by
  have hpoint (p : Point ℚ) : (p.shift v).shift w = p.shift (v.shift w) :=
    (Point.mk.injEq ..).mpr ⟨(add_assoc w.x v.x p.x).symm, (add_assoc w.y v.y p.y).symm⟩
  have hnodes : (d.nodes.map (·.shift v)).map (·.shift w) = d.nodes.map (·.shift (v.shift w)) := by
    rw [List.map_map]
    exact List.map_congr_left fun n _ => congrArg n.moveTo (hpoint n.position)
  have hedges : (d.edges.map (·.shift v)).map (·.shift w) = d.edges.map (·.shift (v.shift w)) := by
    rw [List.map_map]
    refine List.map_congr_left fun e _ => congrArg e.route ?_
    show (e.points.map (·.shift v)).map (·.shift w) = e.points.map (·.shift (v.shift w))
    rw [List.map_map]
    exact List.map_congr_left fun p _ => hpoint p
  unfold shift
  dsimp only
  rw [hnodes, hedges]

theorem offset_shift {d : Diagram ℚ} (h : d.nodes ≠ []) (m : Metrics ℚ) (padding : ℚ) (v : Point ℚ) :
    v.shift ((d.shift v).offset m padding) = d.offset m padding := by
  have hon (a : Axis) : (v.shift ((d.shift v).offset m padding)).on a = (d.offset m padding).on a := by
    obtain ⟨t, ht⟩ := exists_start h a m
    have hshift : (d.shift v).start? a m = some (v.on a + t) := by rw [start_shift, ht, Option.map_some]
    rw [Point.on_shift, on_offset_of_start hshift, on_offset_of_start ht]
    ring
  exact Point.ext_on (a := .x) (hon .x) (hon .y)

/-- Wherever a drawing is moved, its frame takes it to the same place. -/
theorem fit_shift {d : Diagram ℚ} (h : d.nodes ≠ []) (m : Metrics ℚ) (padding : ℚ) (v : Point ℚ) :
    (d.shift v).fit m padding = d.fit m padding := by
  rw [fit_eq, shift_shift, offset_shift h, ← fit_eq]

theorem fit_fit {d : Diagram ℚ} (h : d.nodes ≠ []) (m m' : Metrics ℚ) (padding padding' : ℚ) :
    (d.fit m' padding').fit m padding = d.fit m padding := by
  rw [fit_congr (d.unframed_fit m' padding'), fit_shift h]

/-- A framed drawing begins at the padding. -/
theorem start_fit {d : Diagram ℚ} (h : d.nodes ≠ []) (m : Metrics ℚ) (padding : ℚ) (a : Axis) :
    (d.shift (d.offset m padding)).start? a m = some padding := by
  obtain ⟨t, ht⟩ := exists_start h a m
  rw [start_shift, ht, on_offset_of_start ht, Option.map_some, sub_add_cancel]

/-- The boxes and frames of a framed drawing begin at the padding. -/
theorem isLeast_corner_fit {d : Diagram ℚ} (h : d.nodes ≠ []) (m : Metrics ℚ) (padding : ℚ) (a : Axis) :
    IsLeast ((·.corner.on a) '' {r | r ∈ content (d.fit m padding).nodes (d.fit m padding).groups}) padding := by
  have hstart := start_fit h m padding a
  unfold start? at hstart
  rw [least_eq_min, List.min?_eq_some_iff] at hstart
  obtain ⟨hmem, hle⟩ := hstart
  rw [fit_eq]
  refine ⟨List.mem_map.1 hmem, ?_⟩
  rintro _ ⟨r, hr, rfl⟩
  exact hle _ (List.mem_map_of_mem hr)

/-- The bounds of a framed drawing begin at the origin. -/
theorem exists_bounds_fit {d : Diagram ℚ} (h : d.nodes ≠ []) (m : Metrics ℚ) (padding : ℚ) :
    ∃ r, (d.fit m padding).bounds = some r ∧ r.corner = Point.origin := by
  have hon (a : Axis) : ((d.shift (d.offset m padding)).offset m padding).on a = 0 := by
    rw [on_offset_of_start (start_fit h m padding a), sub_self]
  have hx : -((d.shift (d.offset m padding)).bound m padding).toOrigin.x = 0 := neg_eq_zero.2 (hon .x)
  have hy : -((d.shift (d.offset m padding)).bound m padding).toOrigin.y = 0 := neg_eq_zero.2 (hon .y)
  rw [fit_eq]
  refine ⟨_, rfl, (Point.mk.injEq ..).mpr ⟨(neg_neg _).symm.trans hx, (neg_neg _).symm.trans hy⟩⟩

end Diagram

/-! ## Frames of engines -/

theorem Scalar.clamp_of_nonneg {a : ℚ} (h : 0 ≤ a) : clamp a = a := by
  unfold clamp
  simp only [finite_eq, less_eq, zero_eq, Bool.true_and, decide_eq_true_eq]
  split
  · rfl
  · next hpos => exact le_antisymm h (not_lt.1 hpos)

theorem LayoutOptions.sanitized_sanitized (o : LayoutOptions ℚ) : o.sanitized.sanitized = o.sanitized := by
  unfold sanitized
  dsimp only
  rw [Scalar.clamp_of_nonneg (Scalar.clamp_nonneg o.nodeSpacing),
    Scalar.clamp_of_nonneg (Scalar.clamp_nonneg o.rankSpacing),
    Scalar.clamp_of_nonneg (Scalar.clamp_nonneg o.padding)]

namespace Registry

variable {r : Registry ℚ} {name : Option String} {d : Diagram ℚ}

theorem layout_of_layered (hr : r.resolve name = .layered) (h : d.nodes ≠ []) (options : LayoutOptions ℚ)
    (m : Metrics ℚ) : r.layout name options m d =
      (d.place options.sanitized (d.ranking.ordered ℚ)).fit m options.sanitized.padding := by
  have hplaced : (d.place options.sanitized (d.ranking.ordered ℚ)).nodes ≠ [] := by
    rw [← List.length_pos_iff, Diagram.place]
    simpa [Placement.ofLayers] using List.length_pos_iff.2 h
  show ((r.resolve name).arrange options.sanitized d).fit m options.sanitized.padding = _
  rw [hr, show Engine.layered.arrange options.sanitized d = d.layered options.sanitized from rfl, Diagram.layered_eq,
    LayoutOptions.sanitized_sanitized, Diagram.fit_fit hplaced]

theorem layout_of_grid (hr : r.resolve name = .grid) (h : d.nodes ≠ []) (options : LayoutOptions ℚ) (m : Metrics ℚ) :
    r.layout name options m d = (d.gridded options.sanitized).fit m options.sanitized.padding := by
  have hgridded : (d.gridded options.sanitized).nodes ≠ [] := by
    rw [← List.length_pos_iff]
    exact (length_gridFrom _ _ _ _ d.nodes).symm ▸ List.length_pos_iff.2 h
  show ((r.resolve name).arrange options.sanitized d).fit m options.sanitized.padding = _
  rw [hr, show Engine.grid.arrange options.sanitized d = d.grid options.sanitized from rfl, Diagram.grid_eq,
    LayoutOptions.sanitized_sanitized, Diagram.fit_fit hgridded]

end Registry

/-- A frame moves a drawing with boxes to its padding and changes nothing else.  Frames before it do not count,
its own among them, and neither do those that the engines put around their drawings. -/
theorem Diagram.fit_frames {d : Diagram ℚ} (h : d.nodes ≠ []) (m m' : Metrics ℚ) (padding padding' : ℚ) :
    (∃ v, (d.fit m padding).unframed = (d.shift v).unframed) ∧
      IsLeast {x | ∃ r ∈ content (d.fit m padding).nodes (d.fit m padding).groups, r.x = x} padding ∧
      IsLeast {y | ∃ r ∈ content (d.fit m padding).nodes (d.fit m padding).groups, r.y = y} padding ∧
      (∃ r, (d.fit m padding).bounds = some r ∧ r.x = 0 ∧ r.y = 0) ∧
      (d.fit m' padding').fit m padding = d.fit m padding ∧
      ∀ (r : Registry ℚ) (name : Option String) (options : LayoutOptions ℚ),
        (r.resolve name = .layered → r.layout name options m d =
          (d.place options.sanitized (d.ranking.ordered ℚ)).fit m options.sanitized.padding) ∧
        (r.resolve name = .grid → r.layout name options m d =
          (d.gridded options.sanitized).fit m options.sanitized.padding) := by
  obtain ⟨r, hr, horigin⟩ := exists_bounds_fit h m padding
  exact ⟨⟨_, d.unframed_fit m padding⟩, isLeast_corner_fit h m padding .x, isLeast_corner_fit h m padding .y,
    ⟨r, hr, congrArg Point.x horigin, congrArg Point.y horigin⟩, fit_fit h m m' padding padding',
    fun _ _ options => ⟨fun hr => Registry.layout_of_layered hr h options m,
      fun hr => Registry.layout_of_grid hr h options m⟩⟩

/-- Metrics that leave much room around groups. -/
def Metrics.wide : Metrics ℚ := { standard with groupPadding := 100, groupHeaderHeight := 300 }

theorem Diagram.fit_shelved : shelved.nodes ≠ [] ∧ Registry.standard.resolve (some "grid") = (.grid : Engine ℚ) ∧
    (shelved.fit .wide 7).fit .standard 50 = shelved.fit .standard 50 ∧
    Registry.standard.layout (some "grid") .standard .standard shelved =
      (shelved.gridded LayoutOptions.standard.sanitized).fit .standard LayoutOptions.standard.sanitized.padding := by
  have hne : shelved.nodes ≠ [] := List.cons_ne_nil _ _
  have hgrid : Registry.standard.resolve (some "grid") = (.grid : Engine ℚ) := rfl
  obtain ⟨-, -, -, -, hfit, hlayout⟩ := fit_frames hne .standard .wide 50 7
  exact ⟨hne, hgrid, hfit, (hlayout .standard (some "grid") .standard).2 hgrid⟩

end Erd

import Erd.Proofs.Layout.Levels
import Erd.Proofs.Layout.Structure

/-!
# Ways of edges

The way of an edge leads straight from the centre of one box to the centre of the other and crosses every gap
between the ranks of the two in the middle.  It is read off the placement, and moves with the boxes when the
drawing is framed.

    p.Levelled rank gap → levels rise along ways to higher ranks                        (levels_sorted)
    levels along a way back are those along the way there, turned round                (levels_reverse)
    p.Levelled rank gap → p.way (rank u) (rank v) a.center b.center is a way                    (isWay)
    (p.move v).wayBetween ranks i j = (p.wayBetween ranks i j).map (·.shift v)        (wayBetween_move)
    edges of d.layered options have ways between their boxes                             (layered_ways)
-/

namespace Erd

/-! ## Straight ways -/

namespace Point

/-- The point at a part of the straight line from one point to another. -/
def between (p q : Point ℚ) (t : ℚ) : Point ℚ := ⟨p.x + (q.x - p.x) * t, p.y + (q.y - p.y) * t⟩

theorem on_between (a : Axis) (p q : Point ℚ) (t : ℚ) : (between p q t).on a = p.on a + (q.on a - p.on a) * t := by
  cases a <;> rfl

theorem ratio_bounds {s e t : ℚ} (h : s ≤ t ∧ t ≤ e ∨ e ≤ t ∧ t ≤ s) :
    0 ≤ (t - s) / (e - s) ∧ (t - s) / (e - s) ≤ 1 := by
  rcases h with ⟨hs, he⟩ | ⟨he, hs⟩
  · exact ⟨div_nonneg (by linarith) (by linarith), div_le_one_of_le₀ (by linarith) (by linarith)⟩
  · rw [← neg_div_neg_eq]
    exact ⟨div_nonneg (by linarith) (by linarith), div_le_one_of_le₀ (by linarith) (by linarith)⟩

theorem epsilon_pos : 0 < (Scalar.epsilon : ℚ) := by
  unfold Scalar.epsilon
  norm_num

theorem ratio_downstream (d : Direction) (p q r : Point ℚ) : (r.downstream d - p.downstream d) /
    (q.downstream d - p.downstream d) = (r.on d.axis - p.on d.axis) / (q.on d.axis - p.on d.axis) := by
  unfold downstream
  simp only [across_eq]
  split
  · rw [← neg_div_neg_eq]
    congr 1 <;> ring
  · rfl

/-- Where the ends are not too near each other across ranks, the interpolated point is on the line. -/
theorem interpolate_eq_between {d : Direction} {p q : Point ℚ} (h : Scalar.epsilon < |q.across d - p.across d|)
    (r : Point ℚ) : interpolate d p q (r.across d) =
      between p q ((r.downstream d - p.downstream d) / (q.downstream d - p.downstream d)) := by
  rw [ratio_downstream]
  rw [across_eq, across_eq] at h
  refine Point.ext_on (a := d.axis) ?_ ?_
  · have hne : q.on d.axis - p.on d.axis ≠ 0 := abs_pos.1 (epsilon_pos.trans h)
    rw [on_interpolate, on_between, mul_div_cancel₀ _ hne, across_eq]
    ring
  · rw [on_other_interpolate, on_between, across_eq, ratio, if_pos h]

theorem downstream_interpolate (d : Direction) (p q r : Point ℚ) :
    (interpolate d p q (r.across d)).downstream d = r.downstream d := by
  unfold downstream
  rw [across_eq, on_interpolate]

theorem interpolate_shift (d : Direction) (v p q r : Point ℚ) :
    interpolate d (p.shift v) (q.shift v) ((r.shift v).across d) = (interpolate d p q (r.across d)).shift v := by
  have hratio : ratio ((p.shift v).on d.axis) ((q.shift v).on d.axis) ((r.shift v).on d.axis) =
      ratio (p.on d.axis) (q.on d.axis) (r.on d.axis) := by
    simp only [on_shift, add_comm (v.on d.axis), ratio_add]
  refine Point.ext_on (a := d.axis) ?_ ?_
  · rw [on_interpolate, on_shift, on_interpolate, across_eq, across_eq, on_shift]
  · rw [on_other_interpolate, across_eq, hratio, on_shift, on_shift, on_shift, on_other_interpolate, across_eq]
    ring

end Point

/-! ## Ways between boxes -/

/-- Whatever lies between the ends of a list in order is between them. -/
theorem between_ends {R : Point ℚ → Point ℚ → Prop} {x y z : Point ℚ} {inner : List (Point ℚ)}
    (h : (x :: inner ++ [y]).Pairwise R) (hz : z ∈ inner) : R x z ∧ R z y :=
  ⟨List.rel_of_pairwise_cons h (List.mem_append_left _ hz),
    (List.pairwise_append.1 h).2.2 z (List.mem_cons_of_mem x hz) y List.mem_cons_self⟩

/-- A point halfway through the gap between a rank and the next, and inside no box. -/
structure InGap (d : Direction) (nodes : List (TableBox ℚ)) (rank : Nat → Nat) (gap : ℚ) (r : Nat) (p : Point ℚ) :
    Prop where
  midway : ∃ e s, IsGreatest (farSides d nodes rank r) e ∧ IsLeast (nearSides d nodes rank (r + 1)) s ∧
    e + gap = s ∧ p.downstream d = (e + s) / 2
  clear : ∀ n ∈ nodes, ¬n.rect.Encloses p

/-- A way between two boxes, with one point in every gap that it crosses. -/
structure IsWay (d : Direction) (nodes : List (TableBox ℚ)) (rank : Nat → Nat) (gap : ℚ) (u v : Nat)
    (a b : TableBox ℚ) (points : List (Point ℚ)) : Prop where
  length : points.length = ((rank u : ℤ) - rank v).natAbs + 2
  first : points.head? = some a.center
  last : points.getLast? = some b.center
  rising : rank u < rank v → points.Pairwise fun p q => p.downstream d ≤ q.downstream d
  falling : rank v < rank u → points.Pairwise fun p q => q.downstream d ≤ p.downstream d
  inner : ∀ i p, i < ((rank u : ℤ) - rank v).natAbs → points[i + 1]? = some p →
    InGap d nodes rank gap (gapAt (rank u) (rank v) i) p
  straight : Scalar.epsilon < |b.center.across d - a.center.across d| →
    ∀ p ∈ points, ∃ t, 0 ≤ t ∧ t ≤ 1 ∧ p = Point.between a.center b.center t

namespace Placement

variable {p : Placement ℚ}

/-- The point at which a way crosses a boundary. -/
def crossing (p : Placement ℚ) (start stop : Point ℚ) (c : ℚ) : Point ℚ :=
  Point.interpolate p.frame.direction start stop (p.onCanvas c)

theorem downstream_crossing (p : Placement ℚ) (start stop : Point ℚ) (c : ℚ) :
    (p.crossing start stop c).downstream p.frame.direction = p.level c := Point.downstream_interpolate ..

theorem length_way {k l : Nat} (hk : k ≤ (boundaries p.bands).length) (hl : l ≤ (boundaries p.bands).length)
    (start stop : Point ℚ) : (p.way k l start stop).length = ((k : ℤ) - l).natAbs + 2 := by
  simp only [way, List.length_append, List.length_cons, List.length_map, length_crossed hk hl, List.length_nil]

/-- The levels of the points of a way. -/
def levels (p : Placement ℚ) (k l : Nat) (x y : ℚ) : List ℚ :=
  p.level x :: (crossed (boundaries p.bands) k l).map p.level ++ [p.level y]

theorem map_downstream_way {k l : Nat} {start stop : Point ℚ} {x y : ℚ}
    (hx : start.downstream p.frame.direction = p.level x) (hy : stop.downstream p.frame.direction = p.level y) :
    (p.way k l start stop).map (·.downstream p.frame.direction) = p.levels k l x y := by
  have hinner : ((crossed (boundaries p.bands) k l).map (p.crossing start stop)).map
      (·.downstream p.frame.direction) = (crossed (boundaries p.bands) k l).map p.level := by
    rw [List.map_map]
    exact List.map_congr_left fun c _ => p.downstream_crossing start stop c
  show (start :: (crossed (boundaries p.bands) k l).map (p.crossing start stop) ++ [stop]).map _ = _
  rw [List.map_append, List.map_cons, List.map_singleton, hinner, hx, hy]
  rfl

theorem levels_reverse {k l : Nat} (h : l < k) (x y : ℚ) : p.levels k l x y = (p.levels l k y x).reverse := by
  unfold levels
  rw [crossed_reverse h, List.map_reverse, List.reverse_append, List.reverse_singleton,
    List.reverse_cons]
  rfl

namespace Levelled

variable {rank : Nat → Nat} {gap : ℚ}

/-- From a rank to one behind it the levels rise. -/
theorem levels_sorted (h : p.Levelled rank gap) {k l : Nat} {a b : Band ℚ} (hkl : k < l) (ha : p.bands[k]? = some a)
    (hb : p.bands[l]? = some b) :
    (p.levels k l (a.start + a.thickness / 2) (b.start + b.thickness / 2)).Pairwise (· ≤ ·) := by
  have hthick := h.stacked.thickness_nonneg ha
  have hthick' := h.stacked.thickness_nonneg hb
  have hfront : ∀ c ∈ crossed (boundaries p.bands) k l, a.start + a.thickness / 2 ≤ c := by
    intro c hc
    obtain ⟨r, hr, -, hbound⟩ := mem_crossed hc
    have hle := h.stacked.end_le hbound ha (by omega)
    linarith
  have hbehind : ∀ c ∈ crossed (boundaries p.bands) k l, c ≤ b.start + b.thickness / 2 := by
    intro c hc
    obtain ⟨r, -, hr, hbound⟩ := mem_crossed hc
    have hle := h.stacked.le_start hbound hb (by omega)
    linarith
  have hends : a.start + a.thickness / 2 ≤ b.start + b.thickness / 2 := by
    obtain ⟨n, rfl⟩ := Nat.exists_eq_add_of_le (Nat.succ_le_of_lt hkl)
    have hapart := h.stacked.apart ha hb
    have hgap := h.stacked.gap_nonneg
    linarith
  have hinner : (crossed (boundaries p.bands) k l).Pairwise (· ≤ ·) := by
    rw [crossed_up hkl]
    exact h.stacked.boundaries_sorted.sublist ((List.take_sublist _ _).trans (List.drop_sublist _ _))
  have hmap : p.levels k l (a.start + a.thickness / 2) (b.start + b.thickness / 2) =
      ((a.start + a.thickness / 2) :: crossed (boundaries p.bands) k l ++ [b.start + b.thickness / 2]).map p.level := by
    rw [List.map_append, List.map_cons, List.map_singleton]
    rfl
  rw [hmap, List.pairwise_map]
  refine List.Pairwise.imp (fun hle => level_le.2 hle) (List.pairwise_append.2 ⟨?_, List.pairwise_singleton _ _, ?_⟩)
  · exact List.pairwise_cons.2 ⟨hfront, hinner⟩
  · intro x hx y hy
    rw [List.mem_singleton.1 hy]
    rcases List.mem_cons.1 hx with rfl | hx
    · exact hends
    · exact hbehind x hx

/-- A point on the level of a boundary lies in the gap. -/
theorem inGap (h : p.Levelled rank gap) {r : Nat} {c : ℚ} (hc : (boundaries p.bands)[r]? = some c) {q : Point ℚ}
    (hq : q.downstream p.frame.direction = p.level c) : InGap p.frame.direction p.nodes rank gap r q where
  midway := by
    obtain ⟨a, b, ha, hb, rfl⟩ := getElem?_boundaries.1 hc
    refine ⟨_, _, h.isGreatest_far ha, h.isLeast_near hb, ?_, ?_⟩
    · rw [p.level_eq, p.level_eq b.start, ← h.stacked.next r a b ha hb, add_assoc]
    · rw [hq, p.level_eq, p.level_eq b.start, p.level_eq (a.start + a.thickness)]
      show p.level 0 + (a.start + a.thickness + b.start) / 2 = _
      ring
  clear n hn hinside := by
    obtain ⟨i, hi⟩ := List.getElem?_of_mem hn
    obtain ⟨b, hb, -⟩ := h.box i n hi
    obtain ⟨hnear, hfar⟩ := h.sides hb hi rfl
    obtain ⟨hlow, hhigh⟩ := hinside.between p.frame.direction
    rw [hq] at hlow hhigh
    rcases Nat.lt_or_ge r (rank i) with hr | hr
    · have hle : p.level c ≤ p.level b.start := level_le.2 (h.stacked.le_start hc hb hr)
      exact absurd (hle.trans hnear) (not_le.2 hlow)
    · have hle : p.level (b.start + b.thickness) ≤ p.level c := level_le.2 (h.stacked.end_le hc hb hr)
      exact absurd (hfar.trans hle) (not_le.2 hhigh)

theorem rank_le (h : p.Levelled rank gap) {i : Nat} {n : TableBox ℚ} (hi : p.nodes[i]? = some n) :
    rank i ≤ (boundaries p.bands).length := by
  obtain ⟨b, hb, -⟩ := h.box i n hi
  obtain ⟨hlt, -⟩ := List.getElem?_eq_some_iff.1 hb
  rw [length_boundaries]
  omega

/-- The way between two boxes in different ranks. -/
theorem isWay (h : p.Levelled rank gap) {u v : Nat} {a b : TableBox ℚ} (hu : p.nodes[u]? = some a)
    (hv : p.nodes[v]? = some b) (hne : rank u ≠ rank v) :
    IsWay p.frame.direction p.nodes rank gap u v a b (p.way (rank u) (rank v) a.center b.center) := by
  obtain ⟨x, hx, hxlevel, -⟩ := h.box u a hu
  obtain ⟨y, hy, hylevel, -⟩ := h.box v b hv
  have hmap := p.map_downstream_way (k := rank u) (l := rank v) hxlevel hylevel
  have hrising (hlt : rank u < rank v) : (p.way (rank u) (rank v) a.center b.center).Pairwise fun p' q =>
      p'.downstream p.frame.direction ≤ q.downstream p.frame.direction :=
    List.pairwise_map.1 (hmap ▸ h.levels_sorted hlt hx hy)
  have hfalling (hlt : rank v < rank u) : (p.way (rank u) (rank v) a.center b.center).Pairwise fun p' q =>
      q.downstream p.frame.direction ≤ p'.downstream p.frame.direction := by
    rw [levels_reverse hlt] at hmap
    exact List.pairwise_map.1 (hmap ▸ List.pairwise_reverse.2 (h.levels_sorted hlt hy hx))
  refine
    { length := length_way (h.rank_le hu) (h.rank_le hv) _ _
      first := rfl
      last := List.getLast?_concat
      rising := hrising
      falling := hfalling
      inner := fun i q hi hq => ?_
      straight := fun hfar q hq => ?_ }
  · -- the point crosses the boundary behind the rank
    have hlength : i < ((crossed (boundaries p.bands) (rank u) (rank v)).map (p.crossing a.center b.center)).length := by
      rw [List.length_map, length_crossed (h.rank_le hu) (h.rank_le hv)]
      exact hi
    have hq : ((crossed (boundaries p.bands) (rank u) (rank v)).map (p.crossing a.center b.center) ++
        [b.center])[i]? = some q := hq
    rw [List.getElem?_append_left hlength, List.getElem?_map, getElem?_crossed (h.rank_le hu) (h.rank_le hv) hi] at hq
    obtain ⟨c, hc, rfl⟩ := Option.map_eq_some_iff.1 hq
    exact h.inGap hc (p.downstream_crossing _ _ c)
  · have hq : q ∈ a.center :: (crossed (boundaries p.bands) (rank u) (rank v)).map (p.crossing a.center b.center) ++
        [b.center] := hq
    rcases List.mem_append.1 hq with hq | hq
    · rcases List.mem_cons.1 hq with rfl | hq
      · exact ⟨0, le_refl 0, zero_le_one, by simp [Point.between]⟩
      · obtain ⟨c, -, rfl⟩ := List.mem_map.1 hq
        have horder :
            a.center.downstream p.frame.direction ≤ p.level c ∧ p.level c ≤ b.center.downstream p.frame.direction ∨
              b.center.downstream p.frame.direction ≤ p.level c ∧ p.level c ≤ a.center.downstream p.frame.direction := by
          rw [← p.downstream_crossing a.center b.center c]
          rcases Nat.lt_or_gt_of_ne hne with hlt | hlt
          · exact Or.inl (between_ends (hrising hlt) hq)
          · exact Or.inr (between_ends (hfalling hlt) hq).symm
        obtain ⟨hzero, hone⟩ := Point.ratio_bounds horder
        exact ⟨_, hzero, hone, Point.interpolate_eq_between hfar _⟩
    · rw [List.mem_singleton.1 hq]
      exact ⟨1, zero_le_one, le_refl 1, by simp [Point.between]⟩

end Levelled

/-! ## Moved ways -/

theorem onCanvas_move (v : Point ℚ) (p : Placement ℚ) (c : ℚ) : (p.move v).onCanvas c =
    (((p.frame.toCanvas Scalar.zero c).shift p.shift).shift v).across p.frame.direction := by
  rw [← toCanvas_move]
  rfl

theorem way_move (v : Point ℚ) (p : Placement ℚ) (k l : Nat) (start stop : Point ℚ) :
    (p.move v).way k l (start.shift v) (stop.shift v) = (p.way k l start stop).map (·.shift v) := by
  have hinner (c : ℚ) : (p.move v).crossing (start.shift v) (stop.shift v) c = (p.crossing start stop c).shift v := by
    unfold crossing
    rw [onCanvas_move]
    exact Point.interpolate_shift ..
  show start.shift v :: (crossed (boundaries p.bands) k l).map ((p.move v).crossing (start.shift v) (stop.shift v)) ++
    [stop.shift v] = (start :: (crossed (boundaries p.bands) k l).map (p.crossing start stop) ++ [stop]).map (·.shift v)
  rw [List.map_append, List.map_cons, List.map_map, List.map_singleton]
  exact congrArg (start.shift v :: · ++ [stop.shift v]) (List.map_congr_left fun c _ => hinner c)

/-- Ways move with the boxes. -/
theorem wayBetween_move (v : Point ℚ) (p : Placement ℚ) (ranks : Array Nat) (i j : Nat) :
    (p.move v).wayBetween ranks i j = (p.wayBetween ranks i j).map (·.shift v) := by
  unfold wayBetween
  rw [show (p.move v).nodes = p.nodes.map (·.shift v) from rfl, List.getElem?_map, List.getElem?_map]
  cases p.nodes[i]? with
  | none => rfl
  | some a =>
    cases p.nodes[j]? with
    | none => rfl
    | some b =>
      simp only [Option.map_some, TableBox.center_shift]
      exact way_move ..

end Placement

/-! ## Ways of a layered drawing -/

namespace Diagram

variable {d : Diagram ℚ}

/-- The ways of all edges along a placement. -/
def routes (d : Diagram ℚ) (p : Placement ℚ) (ranks : Array Nat) : List (Edge ℚ) :=
  d.edges.map fun e => e.route (match d.ends? e with
    | some (i, j) => p.wayBetween ranks i j
    | none => [])

/-- Placed boxes and ways are moved together when they are framed. -/
theorem exists_move (o : LayoutOptions ℚ) (r : Ranking) (m : Metrics ℚ) (padding : ℚ) (d : Diagram ℚ) : ∃ v,
    ((d.place o r).fit m padding).nodes = ((Placement.ofLayers o r.layers d.nodes).move v).nodes ∧
    ((d.place o r).fit m padding).edges = d.routes ((Placement.ofLayers o r.layers d.nodes).move v) r.ranks := by
  have hfit := (d.place o r).unframed_fit m padding
  refine ⟨(d.place o r).offset m padding, congrArg nodes hfit, (congrArg edges hfit).trans ?_⟩
  show (d.edges.map _).map _ = _
  rw [List.map_map]
  refine List.map_congr_left fun e _ => congrArg e.route ?_
  show (match d.ends? e with
    | some (i, j) => Placement.wayBetween _ r.ranks i j
    | none => []).map _ = _
  cases d.ends? e with
  | none => rfl
  | some ends => exact (Placement.wayBetween_move ..).symm

/-- A layered drawing is a placement in its ranks. -/
theorem exists_placement (options : LayoutOptions ℚ) (h : d.Sized) : ∃ p : Placement ℚ,
    p.Levelled d.ranking.rank options.sanitized.rankSpacing ∧ p.frame.direction = options.direction ∧
    p.bands = (Placement.ofLayers options.sanitized (d.ranking.ordered ℚ).layers d.nodes).bands ∧
    (d.layered options).nodes = p.nodes ∧ (d.layered options).edges = d.routes p d.ranking.ranks := by
  obtain ⟨v, hnodes, hedges⟩ :=
    exists_move options.sanitized (d.ranking.ordered ℚ) .standard options.sanitized.padding d
  rw [← layered_eq] at hnodes hedges
  have hlevelled := Placement.levelled_ofLayers (o := options.sanitized) (d.fills_ordered ℚ) h (Scalar.clamp_nonneg _)
    (Scalar.clamp_nonneg _)
  exact ⟨_, hlevelled.move v, rfl, Placement.bands_move .., hnodes, hedges⟩

/-- A box that an id leads to is in the layered drawing. -/
theorem box_of_index {options : LayoutOptions ℚ} {nodes : List (TableBox ℚ)} (h : (d.layered options).nodes = nodes)
    {id : String} {u : Nat} (hu : d.index? id = some u) : ∃ a, nodes[u]? = some a := by
  have hlt : u < nodes.length := by
    rw [← h, length_layered]
    exact (index?_eq_some.1 hu).lt
  exact ⟨nodes[u], List.getElem?_eq_getElem hlt⟩

/-- Edges of a layered drawing have ways between their boxes, and none if they do not have two of them. -/
theorem layered_ways (options : LayoutOptions ℚ) (h : d.Sized) {k : Nat} {e : Edge ℚ} (he : d.edges[k]? = some e) :
    ∃ e', (d.layered options).edges[k]? = some e' ∧
      (d.index? e.source.node = none ∨ d.index? e.target.node = none ∨
        d.index? e.source.node = d.index? e.target.node → e'.points = []) ∧
      ∀ u v, d.index? e.source.node = some u → d.index? e.target.node = some v → u ≠ v →
        ∃ a b, (d.layered options).nodes[u]? = some a ∧ (d.layered options).nodes[v]? = some b ∧
          d.ranking.rank u ≠ d.ranking.rank v ∧
          (∀ w ∈ [u, v], d.ranking.rank w ≤ (boundaries
            (Placement.ofLayers options.sanitized (d.ranking.ordered ℚ).layers d.nodes).bands).length) ∧
          IsWay options.direction (d.layered options).nodes d.ranking.rank options.sanitized.rankSpacing u v a b
            e'.points := by
  obtain ⟨p, hlevelled, hdirection, hbands, hnodes, hedges⟩ := exists_placement options h
  rw [hnodes, hedges, routes, List.getElem?_map, he, ← hbands, ← hdirection]
  refine ⟨_, rfl, fun hnone => ?_, fun u v hu hv huv => ?_⟩
  · show (match d.ends? e with
      | some (i, j) => p.wayBetween d.ranking.ranks i j
      | none => []) = []
    rw [ends?_eq_none.2 hnone]
  · obtain ⟨a, ha⟩ := box_of_index hnodes hu
    obtain ⟨b, hb⟩ := box_of_index hnodes hv
    have hrank : d.ranking.rank u ≠ d.ranking.rank v := by
      rcases d.ranks_lt (mem_pairs (List.mem_of_getElem? he) hu hv huv) with hlt | ⟨hlt, -⟩
      · exact Nat.ne_of_lt hlt
      · exact Nat.ne_of_gt hlt
    refine ⟨a, b, ha, hb, hrank, ?_, ?_⟩
    · intro w hw
      rcases List.mem_cons.1 hw with rfl | hw
      · exact hlevelled.rank_le ha
      · rw [List.mem_singleton.1 hw]
        exact hlevelled.rank_le hb
    · have hway : p.wayBetween d.ranking.ranks u v = p.way (d.ranking.rank u) (d.ranking.rank v) a.center b.center := by
        unfold Placement.wayBetween
        rw [ha, hb]
        rfl
      dsimp only [Edge.route]
      rw [ends?_eq_some.2 ⟨index?_eq_some.1 hu, index?_eq_some.1 hv, huv⟩]
      dsimp only
      rw [hway]
      exact hlevelled.isWay ha hb hrank

/-- Three boxes that lead to each other in a circle: the last edge goes back over two gaps. -/
def circular : Diagram ℚ :=
  { nodes :=
      [{ id := "a", name := "a", position := ⟨0, 0⟩, size := ⟨4, 2⟩, columns := [] },
       { id := "b", name := "b", position := ⟨0, 0⟩, size := ⟨1, 5⟩, columns := [] },
       { id := "c", name := "c", position := ⟨0, 0⟩, size := ⟨3, 3⟩, columns := [] }]
    edges :=
      [{ id := "e", source := ⟨"a", "x"⟩, target := ⟨"b", "x"⟩, type := .manyToOne },
       { id := "f", source := ⟨"b", "x"⟩, target := ⟨"c", "x"⟩, type := .manyToOne },
       { id := "g", source := ⟨"c", "x"⟩, target := ⟨"a", "x"⟩, type := .oneToMany }] }

theorem layered_circular : circular.Sized ∧ circular.ranking.rank 2 = 2 ∧ circular.ranking.rank 0 = 0 ∧
    ∃ e' a b, (circular.layered .standard).edges[2]? = some e' ∧ e'.points.length = 4 ∧
      IsWay .topToBottom (circular.layered .standard).nodes circular.ranking.rank
        (LayoutOptions.standard.sanitized.rankSpacing) 2 0 a b e'.points := by
  have hs : circular.Sized := by
    unfold Sized
    decide
  have hpairs : circular.pairs = [(0, 1), (1, 2), (2, 0)] := by decide
  have hranking : circular.ranking = .ofPairs 3 [(0, 1), (1, 2), (2, 0)] := by
    unfold ranking
    rw [hpairs]
    rfl
  have hranks : circular.ranking.rank 2 = 2 ∧ circular.ranking.rank 0 = 0 := by
    rw [hranking]
    decide +kernel
  obtain ⟨e', he', -, hways⟩ := layered_ways .standard hs (show circular.edges[2]? = some circular.edges[2] by rfl)
  obtain ⟨a, b, -, -, -, -, hway⟩ := hways 2 0 (by decide) (by decide) (by decide)
  refine ⟨hs, hranks.1, hranks.2, e', a, b, he', ?_, hway⟩
  rw [hway.length, hranks.1, hranks.2]
  rfl

end Diagram

end Erd

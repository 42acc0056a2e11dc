import Erd.Proofs.Diagram.Structure
import Erd.Proofs.Geometry.Hull

/-!
# Frames and bounds as hulls

A frame is put around the members of a group with the padding and the header between, and the bounds around all
boxes and frames.  There is only one way to do so, whatever frames and bounds the diagram has before, its own
among them.

    (d.bound m padding).Bounded m padding                                                    (bounded_bound)
    e = d.bound m padding ↔ e.unframed = d.unframed ∧ e.Bounded m padding                     (eq_bound_iff)
-/

namespace Erd

/-! ## Definitions -/

/-- The rectangles of the boxes that a group lists. -/
def GroupFrame.memberBoxes (nodes : List (TableBox ℚ)) (g : GroupFrame ℚ) : Set (Rect ℚ) :=
  {q | ∃ n ∈ nodes, n.id ∈ g.members ∧ n.rect = q}

namespace Diagram

/-- The rectangles of all boxes and all frames. -/
def drawn (d : Diagram ℚ) : Set (Rect ℚ) := {q | (∃ n ∈ d.nodes, n.rect = q) ∨ ∃ g ∈ d.groups, g.bounds = some q}

/-- Every group has the frame, and the diagram the bounds, that its boxes call for. -/
structure Bounded (m : Metrics ℚ) (padding : ℚ) (d : Diagram ℚ) : Prop where
  unframed : ∀ g ∈ d.groups, (∀ n ∈ d.nodes, n.id ∉ g.members) → g.bounds = none
  framed : ∀ g ∈ d.groups, ∀ n ∈ d.nodes, n.id ∈ g.members → ∃ r, g.bounds = some r ∧
    r.Surrounds (g.memberBoxes d.nodes) m.groupPadding (m.groupPadding + m.groupHeaderHeight) m.groupPadding
  blank : d.nodes = [] → d.bounds = some ⟨0, 0, 0, 0⟩
  bounds : d.nodes ≠ [] → ∃ r, d.bounds = some r ∧ r.Surrounds d.drawn padding padding padding

/-- Members lie within their frames, boxes and frames within the bounds. -/
structure Nested (d : Diagram ℚ) : Prop where
  member : ∀ g ∈ d.groups, ∀ n ∈ d.nodes, n.id ∈ g.members → ∃ r, g.bounds = some r ∧ n.rect.Within r
  box : ∀ n ∈ d.nodes, ∃ r, d.bounds = some r ∧ n.rect.Within r
  frame : ∀ g ∈ d.groups, ∀ q, g.bounds = some q → ∃ r, d.bounds = some r ∧ q.Within r

end Diagram

/-! ## Frames -/

namespace GroupFrame

variable {m : Metrics ℚ} {nodes : List (TableBox ℚ)} {g : GroupFrame ℚ}

theorem mem_memberRects {q : Rect ℚ} : q ∈ g.memberRects nodes ↔ q ∈ g.memberBoxes nodes := by
  unfold memberRects memberBoxes
  simp only [List.mem_map, List.mem_filter, List.contains_iff_mem, and_assoc, Set.mem_ofPred_eq]

/-- Only a group without members has no frame. -/
theorem frame_eq_none : g.frame? m nodes = none ↔ ∀ n ∈ nodes, n.id ∉ g.members := by
  have hnil : g.frame? m nodes = none ↔ g.memberRects nodes = [] := by
    unfold frame?
    rw [Option.map_eq_none_iff]
    cases g.memberRects nodes with
    | nil => exact iff_of_true rfl rfl
    | cons r rs => exact iff_of_false (Option.some_ne_none _) (List.cons_ne_nil r rs)
  rw [hnil]
  unfold memberRects
  simp only [List.map_eq_nil_iff, List.filter_eq_nil_iff, List.contains_iff_mem]

theorem surrounds_frame {r : Rect ℚ} (h : g.frame? m nodes = some r) :
    r.Surrounds (g.memberBoxes nodes) m.groupPadding (m.groupPadding + m.groupHeaderHeight) m.groupPadding := by
  have hmembers : {q | q ∈ g.memberRects nodes} = g.memberBoxes nodes := Set.ext fun _ => mem_memberRects
  obtain ⟨hull, hhull, rfl⟩ := Option.map_eq_some_iff.1 h
  rw [← hmembers]
  exact Rect.surrounds_hull hhull _ _ _

/-- A group with a member has a frame. -/
theorem exists_frame {n : TableBox ℚ} (hn : n ∈ nodes) (hmember : n.id ∈ g.members) (m : Metrics ℚ) :
    ∃ r, g.frame? m nodes = some r :=
  Option.ne_none_iff_exists'.1 fun hnone => frame_eq_none.1 hnone n hn hmember

end GroupFrame

namespace Diagram

variable {m : Metrics ℚ} {padding : ℚ} {d e : Diagram ℚ}

/-! ## Bounds -/

theorem mem_content {q : Rect ℚ} : q ∈ content d.nodes d.groups ↔ q ∈ d.drawn := by
  unfold content
  rw [List.mem_append, List.mem_map, List.mem_filterMap]
  rfl

theorem surrounds_boundsOf (h : d.nodes ≠ []) (padding : ℚ) :
    (boundsOf d.nodes d.groups padding).Surrounds d.drawn padding padding padding := by
  have hcontent : {q | q ∈ content d.nodes d.groups} = d.drawn := Set.ext fun _ => mem_content
  obtain ⟨n, rest, hn⟩ := List.exists_cons_of_ne_nil h
  have hhull : ∃ r, Rect.hull? (content d.nodes d.groups) = some r := by
    rw [hn]
    exact ⟨_, rfl⟩
  obtain ⟨r, hr⟩ := hhull
  unfold boundsOf
  rw [hr, ← hcontent]
  exact Rect.surrounds_hull hr padding padding padding

/-- Groups without members have no frames, so without boxes there are none. -/
theorem bounds_of_blank (hnodes : d.nodes = [])
    (h : ∀ g ∈ d.groups, (∀ n ∈ d.nodes, n.id ∉ g.members) → g.bounds = none) : ∀ g ∈ d.groups, g.bounds = none := by
  intro g hg
  refine h g hg ?_
  rw [hnodes]
  exact fun n hn => absurd hn List.not_mem_nil

theorem boundsOf_blank (hnodes : d.nodes = [])
    (h : ∀ g ∈ d.groups, (∀ n ∈ d.nodes, n.id ∉ g.members) → g.bounds = none) (padding : ℚ) :
    boundsOf d.nodes d.groups padding = ⟨0, 0, 0, 0⟩ := by
  unfold boundsOf content
  rw [List.filterMap_eq_nil_iff.2 (bounds_of_blank hnodes h), hnodes]
  rfl

theorem bounded_bound (m : Metrics ℚ) (padding : ℚ) (d : Diagram ℚ) : (d.bound m padding).Bounded m padding := by
  have hunframed : ∀ g ∈ (d.bound m padding).groups, (∀ n ∈ d.nodes, n.id ∉ g.members) → g.bounds = none := by
    intro g hg hnone
    obtain ⟨g, -, rfl⟩ := List.mem_map.1 hg
    exact GroupFrame.frame_eq_none.2 hnone
  refine ⟨hunframed, ?_, ?_, ?_⟩
  · intro g hg n hn hmember
    obtain ⟨g, -, rfl⟩ := List.mem_map.1 hg
    obtain ⟨r, hr⟩ := GroupFrame.exists_frame hn hmember m
    exact ⟨r, hr, GroupFrame.surrounds_frame hr⟩
  · exact fun hnodes => congrArg some (boundsOf_blank hnodes hunframed padding)
  · exact fun hnodes => ⟨_, rfl, surrounds_boundsOf hnodes padding⟩

/-- A diagram with the frames and bounds that it calls for keeps them. -/
theorem Bounded.bound_eq (h : d.Bounded m padding) : d.bound m padding = d := by
  have hframe : ∀ g ∈ d.groups, g.reframe m d.nodes = g := by
    intro g hg
    have hbounds : g.frame? m d.nodes = g.bounds := by
      by_cases hnone : ∀ n ∈ d.nodes, n.id ∉ g.members
      · rw [h.unframed g hg hnone, GroupFrame.frame_eq_none.2 hnone]
      · push Not at hnone
        obtain ⟨n, hn, hmember⟩ := hnone
        obtain ⟨r, hr, hsurrounds⟩ := h.framed g hg n hn hmember
        obtain ⟨r', hr'⟩ := GroupFrame.exists_frame hn hmember m
        rw [hr, hr', (GroupFrame.surrounds_frame hr').unique hsurrounds]
    unfold GroupFrame.reframe
    rw [hbounds]
  have hgroups : d.groups.map (·.reframe m d.nodes) = d.groups := by
    rw [List.map_congr_left hframe, List.map_id']
  have hbounds : some (boundsOf d.nodes d.groups padding) = d.bounds := by
    by_cases hnodes : d.nodes = []
    · rw [h.blank hnodes, boundsOf_blank hnodes h.unframed]
    · obtain ⟨r, hr, hsurrounds⟩ := h.bounds hnodes
      rw [hr, (surrounds_boundsOf hnodes padding).unique hsurrounds]
  unfold bound
  dsimp only
  rw [hgroups, hbounds]

theorem eq_bound_iff : e = d.bound m padding ↔ e.unframed = d.unframed ∧ e.Bounded m padding := by
  constructor
  · rintro rfl
    exact ⟨d.unframed_bound m padding, d.bounded_bound m padding⟩
  · rintro ⟨hunframed, hbounded⟩
    rw [← bound_congr hunframed, hbounded.bound_eq]

theorem Bounded.nested (h : d.Bounded m padding) (hside : 0 ≤ m.groupPadding) (hheader : 0 ≤ m.groupHeaderHeight)
    (hpadding : 0 ≤ padding) : d.Nested := by
  have hdrawn : d.nodes ≠ [] → ∀ q ∈ d.drawn, ∃ r, d.bounds = some r ∧ q.Within r := by
    intro hnodes q hq
    obtain ⟨r, hr, hsurrounds⟩ := h.bounds hnodes
    exact ⟨r, hr, hsurrounds.within hpadding hpadding hpadding hq⟩
  refine ⟨?_, ?_, ?_⟩
  · intro g hg n hn hmember
    obtain ⟨r, hr, hsurrounds⟩ := h.framed g hg n hn hmember
    exact ⟨r, hr, hsurrounds.within hside (add_nonneg hside hheader) hside ⟨n, hn, hmember, rfl⟩⟩
  · exact fun n hn => hdrawn (List.ne_nil_of_mem hn) n.rect (.inl ⟨n, hn, rfl⟩)
  · intro g hg q hq
    have hnodes : d.nodes ≠ [] := fun hnil =>
      Option.some_ne_none q (hq.symm.trans (bounds_of_blank hnil h.unframed g hg))
    exact hdrawn hnodes q (.inr ⟨g, hg, hq⟩)

/-- Framing anew gives the one drawing that has the same boxes, edges, groups and notes and the frames and bounds
that they call for, so that a second time changes nothing.  If no padding is negative, all lies within. -/
theorem bound_exact (m : Metrics ℚ) (padding : ℚ) (d : Diagram ℚ) :
    (d.bound m padding).Bounded m padding ∧ (d.bound m padding).unframed = d.unframed ∧
      (∀ e : Diagram ℚ, e.unframed = d.unframed → e.Bounded m padding → e = d.bound m padding) ∧
      (∀ e : Diagram ℚ, e.unframed = d.unframed → e.bound m padding = d.bound m padding) ∧
      (d.bound m padding).bound m padding = d.bound m padding ∧
      (0 ≤ m.groupPadding → 0 ≤ m.groupHeaderHeight → 0 ≤ padding → (d.bound m padding).Nested) :=
  have hbounded := d.bounded_bound m padding
  ⟨hbounded, d.unframed_bound m padding, fun _ h h' => eq_bound_iff.2 ⟨h, h'⟩, fun _ h => bound_congr h,
    hbounded.bound_eq, hbounded.nested⟩

/-- Boxes of one id, of no extent and of a negative width, two groups that share them and one without members. -/
def scattered : Diagram ℚ :=
  { nodes :=
      [{ id := "a", name := "a", position := ⟨0, 0⟩, size := ⟨4, 2⟩, columns := [] },
       { id := "a", name := "a", position := ⟨30, -5⟩, size := ⟨0, 0⟩, columns := [] },
       { id := "b", name := "b", position := ⟨9, 90⟩, size := ⟨-3, 1⟩, columns := [] }]
    groups :=
      [{ id := "g", name := "g", members := ["a", "a"] }, { id := "h", name := "h", members := ["b", "a"] },
       { id := "i", name := "i", members := ["c"], bounds := some ⟨0, 0, 500, 500⟩ }] }

theorem bound_scattered :
    0 ≤ (Metrics.standard : Metrics ℚ).groupPadding ∧ 0 ≤ (Metrics.standard : Metrics ℚ).groupHeaderHeight ∧
      (0 : ℚ) ≤ 7 ∧ (scattered.bound .standard 7).Nested ∧
      (scattered.bound .standard 7).groups.map (·.bounds) =
        [some ⟨-20, -57, 70, 79⟩, some ⟨-20, -57, 70, 168⟩, none] ∧
      (scattered.bound .standard 7).bounds = some ⟨-27, -64, 84, 182⟩ := by
  have hside : 0 ≤ (Metrics.standard : Metrics ℚ).groupPadding := by decide
  have hheader : 0 ≤ (Metrics.standard : Metrics ℚ).groupHeaderHeight := by decide
  have hpadding : (0 : ℚ) ≤ 7 := by decide
  obtain ⟨-, -, -, -, -, hnested⟩ := bound_exact .standard 7 scattered
  exact ⟨hside, hheader, hpadding, hnested hside hheader hpadding, by decide +kernel, by decide +kernel⟩

end Diagram

end Erd

import Erd.Proofs.Diagram.Bounds
import Erd.Proofs.Geometry.Region

/-!
# Drawings in another order

Frames and bounds are hulls, so they stay the same when the boxes and the groups of a drawing change their order.
It rests on the algebra of rectangles, which the main statement sums up.

    d.Rearranged e → (d.bound m padding).Rearranged (e.bound m padding)                  (Rearranged.bound)
    d.Rearranged e → (d.bound m padding).bounds = (e.bound m padding).bounds            (Rearranged.bounds_eq)
-/

namespace Erd

variable {m : Metrics ℚ} {padding : ℚ} {nodes nodes' : List (TableBox ℚ)} {groups groups' : List (GroupFrame ℚ)}

theorem GroupFrame.reframe_perm (h : nodes.Perm nodes') (g : GroupFrame ℚ) :
    g.reframe m nodes = g.reframe m nodes' := by
  have hrects : (g.memberRects nodes).Perm (g.memberRects nodes') := (h.filter _).map _
  unfold reframe frame?
  rw [Rect.hull_perm hrects]

namespace Diagram

theorem boundsOf_perm (hnodes : nodes.Perm nodes') (hgroups : groups.Perm groups') :
    boundsOf nodes groups padding = boundsOf nodes' groups' padding := by
  have hcontent : (content nodes groups).Perm (content nodes' groups') :=
    (hnodes.map _).append (hgroups.filterMap _)
  unfold boundsOf
  rw [Rect.hull_perm hcontent]

/-- The boxes and the groups of one diagram are those of the other, in any order. -/
structure Rearranged (d e : Diagram ℚ) : Prop where
  nodes : d.nodes.Perm e.nodes
  groups : d.groups.Perm e.groups

variable {d e : Diagram ℚ}

/-- Every group has the same frame in both. -/
theorem Rearranged.bound (h : d.Rearranged e) (m : Metrics ℚ) (padding : ℚ) :
    (d.bound m padding).Rearranged (e.bound m padding) := by
  have hframes : d.groups.map (·.reframe m d.nodes) = d.groups.map (·.reframe m e.nodes) :=
    List.map_congr_left fun g _ => g.reframe_perm h.nodes
  refine ⟨h.nodes, ?_⟩
  show (d.groups.map (·.reframe m d.nodes)).Perm (e.groups.map (·.reframe m e.nodes))
  rw [hframes]
  exact h.groups.map _

theorem Rearranged.bounds_eq (h : d.Rearranged e) (m : Metrics ℚ) (padding : ℚ) :
    (d.bound m padding).bounds = (e.bound m padding).bounds :=
  congrArg some (boundsOf_perm h.nodes (h.bound m padding).groups)

end Diagram

/-- Two proper rectangles intersect exactly if a point is strictly inside both, whichever comes first, and not if
their sides only touch.  Their union is the one rectangle that contains both and is contained in all that do, so
unions may be taken in any order, and so may the boxes and the groups of a drawing for its frames and bounds. -/
theorem Rect.regions_exact :
    (∀ a b : Rect ℚ, a.Proper → b.Proper →
      (a.intersects b = true ↔ (a.interior ∩ b.interior).Nonempty) ∧ ∀ r, a.IsUnion b r ↔ r = a.union b) ∧
    (∀ a b : Rect ℚ, a.intersects b = b.intersects a ∧ (a.Touches b → a.intersects b = false)) ∧
    (∀ a b c : Rect ℚ,
      a.union b = b.union a ∧ (a.union b).union c = a.union (b.union c) ∧ a.union a = a) ∧
    ∀ (m : Metrics ℚ) (padding : ℚ) (d e : Diagram ℚ), d.Rearranged e →
      (d.bound m padding).Rearranged (e.bound m padding) ∧
        (d.bound m padding).bounds = (e.bound m padding).bounds :=
  ⟨fun _ _ ha hb => ⟨intersects_iff ha hb, fun _ => isUnion_iff ha hb⟩,
    fun a b => ⟨intersects_comm a b, Touches.intersects_eq_false⟩,
    fun a b c => ⟨sup_comm a b, sup_assoc a b c, sup_idem a⟩,
    fun m padding _ _ h => ⟨h.bound m padding, h.bounds_eq m padding⟩⟩

/-- The last box first and the last group first. -/
def Diagram.backwards (d : Diagram ℚ) : Diagram ℚ :=
  { d with nodes := d.nodes.reverse, groups := d.groups.reverse }

/-- Two rectangles with a corner in common, two with a side in line, and a diagram read backwards. -/
theorem Rect.regions_overlapping :
    (⟨0, 0, 4, 2⟩ : Rect ℚ).Proper ∧ (⟨3, 1, 4, 2⟩ : Rect ℚ).Proper ∧
      ((⟨0, 0, 4, 2⟩ : Rect ℚ).interior ∩ (⟨3, 1, 4, 2⟩ : Rect ℚ).interior).Nonempty ∧
      (⟨0, 0, 4, 2⟩ : Rect ℚ).IsUnion ⟨3, 1, 4, 2⟩ ⟨0, 0, 7, 3⟩ ∧
      (⟨0, 0, 4, 2⟩ : Rect ℚ).Touches ⟨4, 1, 4, 2⟩ ∧
      (⟨0, 0, 4, 2⟩ : Rect ℚ).intersects ⟨4, 1, 4, 2⟩ = false ∧
      Diagram.scattered.Rearranged Diagram.scattered.backwards ∧
      (Diagram.scattered.bound .standard 7).Rearranged (Diagram.scattered.backwards.bound .standard 7) ∧
      (Diagram.scattered.bound .standard 7).bounds = (Diagram.scattered.backwards.bound .standard 7).bounds := by
  have ha : (⟨0, 0, 4, 2⟩ : Rect ℚ).Proper := ⟨by decide, by decide⟩
  have hb : (⟨3, 1, 4, 2⟩ : Rect ℚ).Proper := ⟨by decide, by decide⟩
  have htouches : (⟨0, 0, 4, 2⟩ : Rect ℚ).Touches ⟨4, 1, 4, 2⟩ := .inl (by decide +kernel)
  have hbackwards : Diagram.scattered.Rearranged Diagram.scattered.backwards :=
    ⟨(List.reverse_perm _).symm, (List.reverse_perm _).symm⟩
  obtain ⟨hproper, hall, -, hdrawn⟩ := regions_exact
  obtain ⟨hintersects, hunion⟩ := hproper _ _ ha hb
  obtain ⟨hframes, hbounds⟩ := hdrawn .standard 7 _ _ hbackwards
  have hinside := hintersects.1 (by decide +kernel)
  have hleast := (hunion ⟨0, 0, 7, 3⟩).2 (by decide +kernel)
  exact ⟨ha, hb, hinside, hleast, htouches, (hall _ _).2 htouches, hbackwards, hframes, hbounds⟩

end Erd

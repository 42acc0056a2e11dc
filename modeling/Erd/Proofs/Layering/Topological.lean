import Erd.Proofs.Layering.Chains

/-!
# Ranks in topological order

With the cycles broken the boxes have an order in which every edge leads ahead.  The ranks along any such
order, each box raising those it leads to, are the longest chains.

    order of finish of the search → order in which forward edges lead ahead           (topological_finished)
    rank v is zero or one more than the greatest rank above it                              (longest_above)
    edges lead ahead in order → order.foldl (raise edges) zeros = longest count edges          (raised_eq)
-/

open Relation (TransGen)

namespace Erd

/-- All boxes in an order in which every edge leads from an earlier box to a later one. -/
structure Topological (count : Nat) (edges : List (Nat × Nat)) (order : List Nat) : Prop where
  perm : order.Perm (List.range count)
  ahead : ∀ e ∈ edges, [e.1, e.2].Sublist order

/-- The least number above the ranks of some boxes, zero without any. -/
structure LeastAbove (rank : Nat → Nat) (above : Nat → Prop) (r : Nat) : Prop where
  lt : ∀ u, above u → rank u < r
  least : r = 0 ∨ ∃ u, above u ∧ r = rank u + 1

namespace LeastAbove

variable {rank : Nat → Nat} {above : Nat → Prop} {r s u : Nat}

theorem eq_zero (h : LeastAbove rank above r) (hnone : ∀ u, ¬above u) : r = 0 :=
  h.least.resolve_right fun ⟨u, hu, _⟩ => hnone u hu

theorem eq_succ (h : LeastAbove rank above r) (hu : above u) :
    ∃ v, above v ∧ r = rank v + 1 ∧ ∀ w, above w → rank w ≤ rank v := by
  have hpos := h.lt u hu
  obtain ⟨v, hv, rfl⟩ := h.least.resolve_left (by omega)
  exact ⟨v, hv, rfl, fun w hw => Nat.le_of_lt_succ (h.lt w hw)⟩

theorem le (h : LeastAbove rank above r) (h' : LeastAbove rank above s) : r ≤ s := by
  rcases h.least with rfl | ⟨u, hu, rfl⟩
  · exact Nat.zero_le s
  · exact h'.lt u hu

theorem unique (h : LeastAbove rank above r) (h' : LeastAbove rank above s) : r = s :=
  Nat.le_antisymm (h.le h') (h'.le h)

/-- One more box above. -/
theorem insert (h : LeastAbove rank above r) :
    LeastAbove rank (fun v => above v ∨ v = u) (max r (rank u + 1)) where
  lt := by
    rintro v (hv | rfl)
    · exact (h.lt v hv).trans_le (Nat.le_max_left _ _)
    · exact Nat.le_max_right _ _
  least := by
    refine Or.inr ?_
    rcases Nat.le_total r (rank u + 1) with hle | hle
    · exact ⟨u, Or.inr rfl, Nat.max_eq_right hle⟩
    · rcases h.least with rfl | ⟨v, hv, rfl⟩
      · omega
      · exact ⟨v, Or.inl hv, Nat.max_eq_left hle⟩

theorem congr {above' : Nat → Prop} (hiff : ∀ v, above v ↔ above' v) (h : LeastAbove rank above r) :
    LeastAbove rank above' r := by
  rwa [← funext fun v => propext (hiff v)]

end LeastAbove

theorem leastAbove_foldl (rank : Nat → Nat) (us : List Nat) :
    LeastAbove rank (· ∈ us) ((us.map fun u => rank u + 1).foldl max 0) where
  lt u hu := (le_foldl_max _ 0).2 _ (List.mem_map_of_mem hu)
  least := by
    refine (foldl_max_cases _ 0).imp_right fun h => ?_
    obtain ⟨u, hu, heq⟩ := List.mem_map.1 h
    exact ⟨u, hu, heq.symm⟩

theorem idxOf_lt_of_sublist {u v : Nat} {xs : List Nat} (hxs : xs.Nodup) (h : [u, v].Sublist xs) :
    xs.idxOf u < xs.idxOf v := by
  obtain ⟨front, back, rfl, hu, hv⟩ := List.cons_sublist_iff.1 h
  have hv := List.singleton_sublist.1 hv
  have hvf : v ∉ front := fun hf => (List.nodup_append.1 hxs).2.2 v hf v hv rfl
  rw [List.idxOf_append_of_mem hu, List.idxOf_append_of_notMem hvf]
  have := List.idxOf_lt_length_of_mem hu
  omega

namespace Topological

variable {count : Nat} {edges : List (Nat × Nat)} {order : List Nat} {u v : Nat}

/-! ## Longest chains -/

theorem nodup (h : Topological count edges order) : order.Nodup := h.perm.nodup_iff.2 List.nodup_range

theorem mem_iff (h : Topological count edges order) : u ∈ order ↔ u < count :=
  h.perm.mem_iff.trans List.mem_range

theorem bounded (h : Topological count edges order) (he : (u, v) ∈ edges) : u < count ∧ v < count :=
  ⟨h.mem_iff.1 ((h.ahead _ he).mem List.mem_cons_self),
    h.mem_iff.1 ((h.ahead _ he).mem (List.mem_cons_of_mem u List.mem_cons_self))⟩

/-- The rank of a box is the least above those of the boxes that lead to it. -/
theorem longest_above (h : Topological count edges order) (v : Nat) :
    LeastAbove (fun u => (longest count edges).getD u 0) (fun u => (u, v) ∈ edges)
      ((longest count edges).getD v 0) := by
  by_cases hv : v < count
  swap
  · -- what is no box has the rank zero, and no edge leads to it
    have hzero : (longest count edges).getD v 0 = 0 := by
      rw [Array.getD_eq_getD_getElem?, Array.getElem?_eq_none (by rw [size_longest]; omega), Option.getD_none]
    exact ⟨fun u he => absurd (h.bounded he).2 hv, Or.inl hzero⟩
  have hedges : ∀ e ∈ edges, e.1 < count ∧ order.idxOf e.1 < order.idxOf e.2 := fun e he =>
    ⟨(h.bounded he).1, idxOf_lt_of_sublist h.nodup (h.ahead e he)⟩
  have hplace : order.idxOf v ≤ count :=
    List.idxOf_le_length.trans_eq (h.perm.length_eq.trans List.length_range)
  have hrank : (longest count edges).getD v 0 =
      ((predecessors edges v).map fun u => (longest count edges).getD u 0 + 1).foldl max 0 :=
    (chain_eq (fun x => order.idxOf x) hedges hv hplace).symm.trans (chain_succ hv)
  have hleast := leastAbove_foldl (fun u => (longest count edges).getD u 0) (predecessors edges v)
  rw [← hrank] at hleast
  exact hleast.congr fun u => mem_predecessors

/-- Ranks rise along edges. -/
theorem longest_lt (h : Topological count edges order) (he : (u, v) ∈ edges) :
    (longest count edges).getD u 0 < (longest count edges).getD v 0 :=
  (h.longest_above v).lt u he

/-- Edges that lead ahead close no cycle. -/
theorem acyclic (h : Topological count edges order) (u : Nat) : ¬TransGen (fun a b => (a, b) ∈ edges) u u := by
  have hrise {u v : Nat} (hchain : TransGen (fun a b => (a, b) ∈ edges) u v) :
      (longest count edges).getD u 0 < (longest count edges).getD v 0 := by
    induction hchain with
    | single he => exact h.longest_lt he
    | tail _ he ih => exact ih.trans (h.longest_lt he)
  exact fun hcycle => absurd (hrise hcycle) (Nat.lt_irrefl _)

/-- Below a box of some rank there is one of every rank less. -/
theorem exists_rank (h : Topological count edges order) (hv : v < count) {r : Nat}
    (hr : r ≤ (longest count edges).getD v 0) : ∃ u < count, (longest count edges).getD u 0 = r := by
  induction hk : (longest count edges).getD v 0 generalizing v with
  | zero => exact ⟨v, hv, by omega⟩
  | succ k ih =>
    rcases Nat.lt_or_eq_of_le hr with hlt | rfl
    · rcases (h.longest_above v).least with hzero | ⟨u, he, heq⟩
      · omega
      · exact ih (h.bounded he).1 (by omega) (by omega)
    · exact ⟨v, hv, rfl⟩

end Topological

/-! ## One box after the other -/

/-- The ranks with the boxes that the edges of a box lead to raised above it. -/
def raise (edges : List (Nat × Nat)) (ranks : Array Nat) (u : Nat) : Array Nat :=
  let next := ranks.getD u 0 + 1
  (successors edges u).foldl (fun ranks v => ranks.setIfInBounds v (max (ranks.getD v 0) next)) ranks

section
variable {edges : List (Nat × Nat)} {ranks : Array Nat} {u v : Nat}

theorem size_foldl_raise (next : Nat) (vs : List Nat) (ranks : Array Nat) :
    (vs.foldl (fun ranks v => ranks.setIfInBounds v (max (ranks.getD v 0) next)) ranks).size = ranks.size := by
  induction vs generalizing ranks with
  | nil => rfl
  | cons v vs ih => exact (ih _).trans Array.size_setIfInBounds

theorem getD_foldl_raise (next : Nat) (vs : List Nat) {ranks : Array Nat} {w : Nat} (hw : w < ranks.size) :
    (vs.foldl (fun ranks v => ranks.setIfInBounds v (max (ranks.getD v 0) next)) ranks).getD w 0 =
      if w ∈ vs then max (ranks.getD w 0) next else ranks.getD w 0 := by
  induction vs generalizing ranks with
  | nil => rfl
  | cons v vs ih =>
    have hset : (ranks.setIfInBounds v (max (ranks.getD v 0) next)).getD w 0 =
        if v = w then max (ranks.getD w 0) next else ranks.getD w 0 := by
      rw [Array.getD_eq_getD_getElem?, Array.getElem?_setIfInBounds]
      by_cases hvw : v = w
      · subst hvw
        simp [hw]
      · simp [hvw, Array.getD_eq_getD_getElem?]
    rw [List.foldl_cons, ih (by rwa [Array.size_setIfInBounds]), hset]
    by_cases hvw : v = w
    · subst hvw
      simp
    · simp [hvw, Ne.symm hvw]

theorem size_raise : (raise edges ranks u).size = ranks.size := size_foldl_raise _ _ _

theorem getD_raise (hv : v < ranks.size) : (raise edges ranks u).getD v 0 =
    if (u, v) ∈ edges then max (ranks.getD v 0) (ranks.getD u 0 + 1) else ranks.getD v 0 := by
  rw [raise, getD_foldl_raise _ _ hv]
  simp only [mem_successors]

end

section
variable {count : Nat} {edges : List (Nat × Nat)}

/-- The ranks once some boxes have raised others: each is the least above those boxes that lead to it. -/
structure Raised (count : Nat) (edges : List (Nat × Nat)) (done : List Nat) (ranks : Array Nat) : Prop where
  size : ranks.size = count
  above : ∀ v < count, LeastAbove (fun u => (longest count edges).getD u 0) (fun u => (u, v) ∈ edges ∧ u ∈ done)
    (ranks.getD v 0)

theorem raised_start : Raised count edges [] (Array.replicate count 0) where
  size := Array.size_replicate
  above v hv := by
    have hzero : (Array.replicate count 0).getD v 0 = 0 := by simp [hv]
    rw [hzero]
    exact ⟨fun u hu => (List.not_mem_nil hu.2).elim, Or.inl rfl⟩

/-- A box that has been raised by all that lead to it raises those that it leads to. -/
theorem Raised.step {order done : List Nat} {ranks : Array Nat} {u : Nat} (horder : Topological count edges order)
    (h : Raised count edges done ranks) (hu : u < count) (hdone : ∀ w, (w, u) ∈ edges → w ∈ done) :
    Raised count edges (done ++ [u]) (raise edges ranks u) where
  size := size_raise.trans h.size
  above v hv := by
    have hfinal : ranks.getD u 0 = (longest count edges).getD u 0 := by
      refine ((h.above u hu).congr fun w => ?_).unique (horder.longest_above u)
      exact ⟨And.left, fun he => ⟨he, hdone w he⟩⟩
    rw [getD_raise (h.size ▸ hv), hfinal]
    split
    · next he =>
      refine (h.above v hv).insert.congr fun w => ?_
      rw [List.mem_append, List.mem_singleton]
      constructor
      · rintro (⟨hw, hd⟩ | rfl)
        · exact ⟨hw, Or.inl hd⟩
        · exact ⟨he, Or.inr rfl⟩
      · rintro ⟨hw, hd | rfl⟩
        · exact Or.inl ⟨hw, hd⟩
        · exact Or.inr rfl
    · next he =>
      refine (h.above v hv).congr fun w => ?_
      rw [List.mem_append, List.mem_singleton]
      refine ⟨fun hw => ⟨hw.1, Or.inl hw.2⟩, ?_⟩
      rintro ⟨hw, hd | rfl⟩
      · exact ⟨hw, hd⟩
      · exact absurd hw he

/-- Whatever leads to a box of an order stands in front of it. -/
theorem Topological.mem_front {done rest : List Nat} {u w : Nat} (h : Topological count edges (done ++ u :: rest))
    (he : (w, u) ∈ edges) : w ∈ done := by
  have hlt := idxOf_lt_of_sublist h.nodup (h.ahead _ he)
  have hu : u ∉ done := fun hu => (List.nodup_append.1 h.nodup).2.2 u hu u List.mem_cons_self rfl
  by_contra hw
  rw [List.idxOf_append_of_notMem hw, List.idxOf_append_of_notMem hu, List.idxOf_cons_self] at hlt
  omega

theorem Raised.foldl {rest done : List Nat} {ranks : Array Nat} (horder : Topological count edges (done ++ rest))
    (h : Raised count edges done ranks) : Raised count edges (done ++ rest) (rest.foldl (raise edges) ranks) := by
  induction rest generalizing done ranks with
  | nil => rwa [List.append_nil]
  | cons u rest ih =>
    have hu : u < count := horder.mem_iff.1 (List.mem_append_right done List.mem_cons_self)
    have hstep := h.step horder hu fun w he => horder.mem_front he
    rw [List.append_cons] at horder ⊢
    exact ih horder hstep

/-- In any order in which edges lead ahead, boxes that raise one another reach the longest chains. -/
theorem raised_eq {order : List Nat} (h : Topological count edges order) :
    order.foldl (raise edges) (Array.replicate count 0) = longest count edges := by
  have hraised : Raised count edges order (order.foldl (raise edges) (Array.replicate count 0)) :=
    raised_start.foldl h
  refine Array.ext (hraised.size.trans (size_longest count edges).symm) fun v hv hv' => ?_
  have hcount : v < count := hraised.size ▸ hv
  have heq := ((hraised.above v hcount).congr fun w => and_iff_left_of_imp fun he => h.mem_iff.2 (h.bounded he).1).unique
    (h.longest_above v)
  simpa only [Array.getD_eq_getD_getElem?, Array.getElem?_eq_getElem hv, Array.getElem?_eq_getElem hv',
    Option.getD_some] using heq

/-- The boxes in the order in which the search finishes them, the last one first. -/
theorem topological_finished {pairs : List (Nat × Nat)} (h : Proper count pairs) :
    Topological count (forward count pairs) (Search.run count (successors pairs)).finished where
  perm := by
    obtain ⟨hs, hall⟩ := Search.run_spec h.loopless
    refine (List.perm_ext_iff_of_nodup hs.nodup List.nodup_range).2 fun u => ?_
    rw [List.mem_range]
    exact ⟨fun hu => hs.bounded u (hs.discovered u hu), hall u⟩
  ahead _ he := sublist_forward h he

/-- Forward edges lead to higher ranks. -/
theorem forward_lt {pairs : List (Nat × Nat)} (h : Proper count pairs) {u v : Nat}
    (he : (u, v) ∈ forward count pairs) :
    (longest count (forward count pairs)).getD u 0 < (longest count (forward count pairs)).getD v 0 :=
  (topological_finished h).longest_lt he

end

end Erd

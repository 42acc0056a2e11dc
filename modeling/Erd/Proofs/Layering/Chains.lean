import Erd.Proofs.Layering.Cycles
import Erd.Proofs.Layering.Layers

/-!
# Chains of edges

Where edges lead up an order, chains of edges are no longer than the order, and so the iteration for the
longest ones comes to rest.

    chains to v of at most n + 1 edges end at the boxes above v with at most n                 (chain_succ)
    place v ≤ n → chains to v of at most n + 1 edges have at most n                              (chain_eq)
-/

namespace Erd

section
variable {count : Nat} {edges : List (Nat × Nat)}

/-- The longest chain of at most so many edges that ends at a box. -/
def chain (count : Nat) (edges : List (Nat × Nat)) (n v : Nat) : Nat :=
  (longestWithin ((Array.range count).map (predecessors edges)) n).getD v 0

theorem mem_predecessors {u v : Nat} : u ∈ predecessors edges v ↔ (u, v) ∈ edges := by
  simp [predecessors]

theorem chain_zero {v : Nat} : chain count edges 0 v = 0 := by
  unfold chain longestWithin
  rw [Array.getD_eq_getD_getElem?, Array.getElem?_map]
  cases ((Array.range count).map (predecessors edges))[v]? <;> rfl

theorem chain_succ {n v : Nat} (hv : v < count) : chain count edges (n + 1) v =
    ((predecessors edges v).map fun u => chain count edges n u + 1).foldl max 0 := by
  have hrow : (((Array.range count).map (predecessors edges)).map
      (rankBelow (longestWithin ((Array.range count).map (predecessors edges)) n)))[v]? =
        some (rankBelow (longestWithin ((Array.range count).map (predecessors edges)) n) (predecessors edges v)) := by
    simp [hv]
  show (((Array.range count).map (predecessors edges)).map _).getD v 0 = _
  rw [Array.getD_eq_getD_getElem?, hrow]
  rfl

/-- No chain to a box is longer than the place of the box in an order that the edges lead up. -/
theorem chain_eq (place : Nat → Nat) (hedges : ∀ e ∈ edges, e.1 < count ∧ place e.1 < place e.2) {n v : Nat}
    (hv : v < count) (hn : place v ≤ n) : chain count edges (n + 1) v = chain count edges n v := by
  induction n generalizing v with
  | zero =>
    have hnone : predecessors edges v = [] := by
      refine List.eq_nil_iff_forall_not_mem.2 fun u hu => ?_
      have hplace : place u < place v := (hedges (u, v) (mem_predecessors.1 hu)).2
      omega
    rw [chain_succ hv, hnone, chain_zero]
    rfl
  | succ n ih =>
    rw [chain_succ hv, chain_succ hv]
    congr 1
    refine List.map_congr_left fun u hu => ?_
    have hplace : place u < place v := (hedges (u, v) (mem_predecessors.1 hu)).2
    rw [ih (hedges (u, v) (mem_predecessors.1 hu)).1 (show place u ≤ n by omega)]

end

end Erd

import Erd.Diagram.Basic

/-!
# Ranks

Every box gets a rank such that relations lead from lower to higher ranks.  Edges are taken as pairs of
box numbers; a depth-first search finds those that close a cycle, and they are turned round.  The rank of
a box is then the length of the longest chain of edges that ends at it.

    pairs      the edges whose ends are two different boxes, in order
    forward    the same with the edges that close cycles turned round
    longest    the longest chain that ends at each box
-/

namespace Erd

/-- The ranks of boxes by number, the boxes of each rank, and the edges that lead downwards. -/
structure Ranking where
  ranks : Array Nat
  layers : List (List Nat)
  edges : List (Nat × Nat)
deriving DecidableEq, Repr

/-! ## Edges between boxes -/

namespace Diagram

variable {α : Type}

/-- The number of the first box of an id. -/
def index? (d : Diagram α) (id : String) : Option Nat := d.nodes.findIdx? (·.id == id)

/-- The numbers of the two boxes of an edge, if it has two different ones. -/
def ends? (d : Diagram α) (e : Edge α) : Option (Nat × Nat) :=
  match d.index? e.source.node, d.index? e.target.node with
  | some u, some v => if u = v then none else some (u, v)
  | _, _ => none

def pairs (d : Diagram α) : List (Nat × Nat) := d.edges.filterMap d.ends?

end Diagram

/-! ## Cycles -/

/-- The boxes an edge leads to from a box, the edge that was added last first. -/
def successors (pairs : List (Nat × Nat)) (u : Nat) : List Nat :=
  ((pairs.filter (·.1 = u)).map (·.2)).reverse

/-- The state of a depth-first search. -/
structure Search where
  discovered : List Nat := []
  finished : List Nat := []
  /-- The edges to a box whose own search is not finished. -/
  closing : List (Nat × Nat) := []
deriving Repr

namespace Search

/-- Searches from a box that is not discovered yet.  A path holds no box twice, so it is no longer than
the number of boxes, which bounds the depth. -/
def visit (next : Nat → List Nat) : Nat → Nat → Search → Search
  | 0, _, s => s
  | depth + 1, u, s =>
    if s.discovered.contains u then s
    else
      let follow (s : Search) (v : Nat) : Search :=
        if !s.discovered.contains v then visit next depth v s
        else if s.finished.contains v then s
        else { s with closing := (u, v) :: s.closing }
      let s := (next u).foldl follow { s with discovered := u :: s.discovered }
      { s with finished := u :: s.finished }

/-- The search from every box in turn. -/
def run (count : Nat) (next : Nat → List Nat) : Search :=
  (List.range count).foldl (fun s u => visit next count u s) {}

end Search

/-- The edges with those that close a cycle turned round. -/
def forward (count : Nat) (pairs : List (Nat × Nat)) : List (Nat × Nat) :=
  let closing := (Search.run count (successors pairs)).closing
  pairs.map fun (u, v) => if closing.contains (u, v) then (v, u) else (u, v)

/-! ## Longest chains -/

/-- The boxes from which an edge leads to a box. -/
def predecessors (edges : List (Nat × Nat)) (v : Nat) : List Nat :=
  (edges.filter (·.2 = v)).map (·.1)

/-- One more than the greatest rank of some boxes, zero without any. -/
def rankBelow (ranks : Array Nat) (above : List Nat) : Nat :=
  (above.map fun u => ranks.getD u 0 + 1).foldl max 0

/-- The longest chains of at most so many edges. -/
def longestWithin (above : Array (List Nat)) : Nat → Array Nat
  | 0 => above.map fun _ => 0
  | n + 1 =>
    let ranks := longestWithin above n
    above.map (rankBelow ranks)

/-- The longest chain that ends at each box; without cycles no chain has more edges than boxes. -/
def longest (count : Nat) (edges : List (Nat × Nat)) : Array Nat :=
  longestWithin ((Array.range count).map (predecessors edges)) count

/-- The boxes of each rank, in order. -/
def layersOf (ranks : Array Nat) : List (List Nat) :=
  let depth := (ranks.map (· + 1)).foldl max 0
  (List.range depth).map fun r => (List.range ranks.size).filter fun i => ranks[i]? == some r

namespace Ranking

def ofPairs (count : Nat) (pairs : List (Nat × Nat)) : Ranking :=
  let edges := forward count pairs
  let ranks := longest count edges
  { ranks, layers := layersOf ranks, edges }

end Ranking

namespace Diagram

variable {α : Type}

def ranking (d : Diagram α) : Ranking := .ofPairs d.nodes.length d.pairs

end Diagram

end Erd

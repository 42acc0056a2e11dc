import Erd.Geometry.Scalar
import Erd.Layering.Ranking

/-!
# Order within ranks

Boxes of a rank are put in order so that few edges cross.  Sweeps go down and up in turn; in each a rank
is sorted by the mean place of the neighbours in the rank before it.  Means are numbers of the type that
coordinates have, so means that round to one number are a tie.
-/

namespace Erd

/-- The boxes of each rank in order, and the place of each box in its rank. -/
structure LayerOrder where
  layers : List (List Nat)
  places : Array Nat
deriving DecidableEq, Repr

namespace LayerOrder

/-- The places with a rank's boxes at the places they have in a list. -/
def placeAll (places : Array Nat) (layer : List Nat) : Array Nat :=
  layer.zipIdx.foldl (fun places (node, i) => places.setIfInBounds node i) places

def ofLayers (count : Nat) (layers : List (List Nat)) : LayerOrder :=
  { layers, places := layers.foldl placeAll (Array.replicate count 0) }

def place (o : LayerOrder) (node : Nat) : Nat := o.places.getD node 0

variable (α : Type) [Scalar α]

/-- The mean place of the neighbours of a box; without neighbours its own place. -/
def key (o : LayerOrder) (neighbours : Nat → List Nat) (node : Nat) : α :=
  match neighbours node with
  | [] => Scalar.ofNat (o.place node)
  | ns => Scalar.mean (ns.map o.place)

/-- Boxes in the order of their keys, those of equal keys as they were. -/
def sorted (o : LayerOrder) (neighbours : Nat → List Nat) (layer : List Nat) : List Nat :=
  ((layer.map fun node => (o.key α neighbours node, node)).mergeSort fun a b => Scalar.sortLe a.1 b.1).map (·.2)

/-- The order with one rank sorted. -/
def reorder (neighbours : Nat → List Nat) (o : LayerOrder) (rank : Nat) : LayerOrder :=
  let layer := o.sorted α neighbours (o.layers.getD rank [])
  { layers := o.layers.set rank layer, places := placeAll o.places layer }

/-- A sweep from the second rank to the last, by the neighbours above. -/
def sweepDown (upper : Nat → List Nat) (o : LayerOrder) : LayerOrder :=
  (List.range' 1 (o.layers.length - 1)).foldl (reorder α upper) o

/-- A sweep from the last rank but one to the first, by the neighbours below. -/
def sweepUp (lower : Nat → List Nat) (o : LayerOrder) : LayerOrder :=
  (List.range (o.layers.length - 1)).reverse.foldl (reorder α lower) o

end LayerOrder

namespace Ranking

/-- The boxes that edges of the ranking lead to from a box. -/
def lower (r : Ranking) (u : Nat) : List Nat := (r.edges.filter (·.1 = u)).map (·.2)

def upper (r : Ranking) (v : Nat) : List Nat := predecessors r.edges v

variable (α : Type) [Scalar α]

/-- Two sweeps down and two up, in turn. -/
def sweeps (r : Ranking) (o : LayerOrder) : LayerOrder :=
  let twice (o : LayerOrder) := (o.sweepDown α r.upper).sweepUp α r.lower
  twice (twice o)

/-- The ranking with the boxes of each rank in order. -/
def ordered (r : Ranking) : Ranking :=
  { r with layers := (r.sweeps α (.ofLayers r.ranks.size r.layers)).layers }

end Ranking

end Erd

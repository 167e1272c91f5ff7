/-
  RoadSplice.Query.Layered — a road graph, with or without an overlay on top.
-/
import RoadSplice.Query.Basic

namespace RoadSplice

/-- A road graph as it is, or seen through an overlay. -/
inductive Layered (K : Type) where
  | plain (g : RoadGraph K)
  | spliced (q : QueryGraph K)

namespace Layered

variable {K : Type} [Scalar K]

/-! ## §1. Reading. -/

/-- The road graph at the bottom. -/
def ground : Layered K → RoadGraph K
  | plain g => g
  | spliced q => q.base

/-- Both layers answer what a graph can be asked. -/
instance : Network (Layered K) K where
  base := ground
  nodeCount
    | plain g => g.nodeCount
    | spliced q => q.nodeCount
  edgeCount
    | plain g => g.edgeCount
    | spliced q => q.edgeCount
  coordinate?
    | plain g, node => g.nodes[node]?
    | spliced q, node => q.coordinate? node
  edges
    | plain g, node => g.edges node
    | spliced q, node => q.edges node
  edge
    | plain g, edge, adj => g.edge edge adj
    | spliced q, edge, adj => q.edge edge adj
  detach
    | plain g, v => g.detach v
    | spliced q, v => q.detach v
  otherNode
    | plain g, edge, node => g.otherNode edge node
    | spliced q, edge, node => q.otherNode edge node
  isAdjacent
    | plain g, edge, node => g.isAdjacent edge node
    | spliced q, edge, node => q.isAdjacent edge node
  turnCost
    | plain g, turn => g.turns.cost turn
    | spliced q, turn => q.turnCost turn

/-- A weighting carried over to the graph. -/
def wrap (w : Weighting K) : Layered K → Weighting K
  | plain _ => w
  | spliced q => QueryGraph.wrap q.overlay w

/-! ## §2. Changes. -/

/-- **Only a plain graph can be changed**; seen through an overlay it is read-only. -/
def writable (write : GraphWrite) : Layered K → Except (Error K) Unit
  | plain _ => .ok ()
  | spliced _ => .error (QueryGraph.refusal write)

end Layered

end RoadSplice

/-
  RoadSplice.Graph.Network — what every graph can be asked.

  Searches and paths need a road graph or a query graph alike; `Network` is what the two have
  in common.
-/
import RoadSplice.Graph.RoadGraph

namespace RoadSplice

/-- A graph of type `G` that can be read. -/
class Network (G : Type) (K : outParam Type) where
  /-- The road graph at the bottom. -/
  base : G → RoadGraph K
  nodeCount : G → Nat
  edgeCount : G → Nat
  coordinate? : G → NodeId → Option (Point K)
  /-- The edges that leave a node, in order. -/
  edges : G → NodeId → List (EdgeView K)
  /-- The view of an edge towards a node, or in its stored direction. -/
  edge : G → EdgeId → Option NodeId → Except (Error K) (EdgeView K)
  /-- The same edge seen from its other end. -/
  detach : G → EdgeView K → EdgeView K
  otherNode : G → EdgeId → NodeId → Except (Error K) NodeId
  isAdjacent : G → EdgeId → NodeId → Bool
  turnCost : G → Turn → K

instance {K : Type} [Scalar K] : Network (RoadGraph K) K where
  base g := g
  nodeCount := RoadGraph.nodeCount
  edgeCount := RoadGraph.edgeCount
  coordinate? g node := g.nodes[node]?
  edges := RoadGraph.edges
  edge := RoadGraph.edge
  detach := RoadGraph.detach
  otherNode := RoadGraph.otherNode
  isAdjacent := RoadGraph.isAdjacent
  turnCost g turn := g.turns.cost turn

end RoadSplice

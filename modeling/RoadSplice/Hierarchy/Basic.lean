/-
  RoadSplice.Hierarchy.Basic — contraction hierarchies.

  Every node has a level of its own.  A hierarchy holds the roads of a graph and the shortcuts
  that keep shortest paths intact when nodes of low level are passed over.
  `RoutingHierarchy` is all that a search asks of one, so that a hierarchy can also be seen
  through an overlay.
-/
import RoadSplice.Graph.TurnTable
import RoadSplice.Hierarchy.Edge

namespace RoadSplice

/-! ## §1. What a search asks. -/

/-- A hierarchy as a search sees it. -/
structure RoutingHierarchy (K : Type) where
  nodeCount : Nat
  edgeCount : Nat
  /-- The number of edges that are no shortcuts and no pieces of an overlay. -/
  baseEdgeCount : Nat
  /-- The edges that leave a node, open in their own direction. -/
  outEdges : NodeId → List (HierarchyEdge K)
  /-- The edges that enter a node, seen from it, open against their own direction. -/
  inEdges : NodeId → List (HierarchyEdge K)
  edge : EdgeId → Option NodeId → Except (Error K) (HierarchyEdge K)
  level : NodeId → Nat
  turnWeight : Turn → K
  hasTurnCosts : Bool
  isEdgeBased : Bool

/-- The level above all others, that of virtual nodes. -/
def topLevel : Nat := UInt32.size - 1

/-! ## §2. Hierarchies. -/

/-- The roads and shortcuts of a hierarchy. -/
structure Hierarchy (K : Type) where
  baseEdgeCount : Nat
  edges : Array (HierarchyEdge K)
  levels : Array Nat
  /-- The edges that leave each node. -/
  out : Array (Array (HierarchyEdge K))
  /-- The edges that enter each node, seen from it. -/
  inc : Array (Array (HierarchyEdge K))

namespace Hierarchy

variable {K : Type} [Scalar K]

open Scalar

/-- Lists an edge at both its ends, in the directions in which it is open.  Loops are on no
shortest path and are listed nowhere. -/
def list (h : Hierarchy K) (e : HierarchyEdge K) : Hierarchy K :=
  if e.base = e.adj then h
  else
    let back := e.reversed
    let h := if isFinite e.weightForward then
        { h with out := h.out.modify e.base (·.push e), inc := h.inc.modify e.adj (·.push back) }
      else h
    if isFinite e.weightBackward then
      { h with out := h.out.modify e.adj (·.push back), inc := h.inc.modify e.base (·.push e) }
    else h

/-- The hierarchy of some edges. -/
def ofEdges (baseEdgeCount : Nat) (edges : Array (HierarchyEdge K)) (levels : Array Nat) :
    Hierarchy K :=
  edges.foldl list
    ⟨baseEdgeCount, edges, levels, Array.replicate levels.size #[], Array.replicate levels.size #[]⟩

def nodeCount (h : Hierarchy K) : Nat := h.levels.size

def edgeCount (h : Hierarchy K) : Nat := h.edges.size

def shortcutCount (h : Hierarchy K) : Nat := h.edgeCount - h.baseEdgeCount

def outEdges (h : Hierarchy K) (node : NodeId) : List (HierarchyEdge K) :=
  (h.out[node]?.getD #[]).toList

def inEdges (h : Hierarchy K) (node : NodeId) : List (HierarchyEdge K) :=
  (h.inc[node]?.getD #[]).toList

def edge (h : Hierarchy K) (edge : EdgeId) (adj : Option NodeId) :
    Except (Error K) (HierarchyEdge K) :=
  match h.edges[edge]? with
  | some e => e.oriented adj
  | none => .error (.edgeNotFound edge)

def level (h : Hierarchy K) (node : NodeId) : Nat := h.levels[node]?.getD 0

/-- **The hierarchy as a search sees it.**  It knows no turn costs and goes from node to
node. -/
def routing (h : Hierarchy K) : RoutingHierarchy K :=
  { nodeCount := h.nodeCount
    edgeCount := h.edgeCount
    baseEdgeCount := h.baseEdgeCount
    outEdges := h.outEdges
    inEdges := h.inEdges
    edge := h.edge
    level := h.level
    turnWeight := fun _ => 0
    hasTurnCosts := false
    isEdgeBased := false }

end Hierarchy

end RoadSplice

/-
  RoadSplice.Hierarchy.View — a hierarchy seen through an overlay.

  The pieces of the overlay are numbered after all shortcuts, at a fixed distance from their
  ids in the query graph.  Virtual nodes lie above all levels, so that a search may always
  enter and leave them.  The weights of the pieces are those at the moment the view is made.
-/
import RoadSplice.Hierarchy.Basic
import RoadSplice.Query.Basic

namespace RoadSplice

/-- A hierarchy, a query graph over the same road graph, and the pieces as hierarchy edges. -/
structure HierarchyView (K : Type) where
  below : RoutingHierarchy K
  query : QueryGraph K
  /-- The weighting of the query graph. -/
  weighting : Weighting K
  /-- By how much the ids of virtual edges are raised. -/
  shift : Nat
  pieces : Array (HierarchyEdge K)

namespace HierarchyView

variable {K : Type} [Scalar K]

open Scalar

/-! ## §1. Making a view. -/

/-- A piece as an edge of the hierarchy. -/
def pieceEdge (w : Weighting K) (shift : Nat) (v : EdgeView K) : HierarchyEdge K :=
  { edge := v.edge + shift
    underlying := some v.edge
    base := v.base
    adj := v.adj
    skipped := none
    weightForward := w.edgeWeight v false
    weightBackward := w.edgeWeight v true
    millisForward := w.edgeMillis v false
    millisBackward := w.edgeMillis v true
    distance := v.distance }

/-- The greatest number of edges whose ids fit. -/
def edgeLimit : Nat := UInt32.size - 1

/-- **The view of a hierarchy over a query graph**, refused when the ids do not fit or the
hierarchy belongs to a smaller graph. -/
def make (h : RoutingHierarchy K) (q : QueryGraph K) (w : Weighting K) :
    Except (Error K) (HierarchyView K) :=
  let virtualEdges := q.overlay.edgeCount
  let baseEdges := q.base.edgeCount
  if edgeLimit < h.edgeCount + virtualEdges ∨ h.edgeCount < baseEdges then
    .error (.edgeIdOverflow h.edgeCount virtualEdges)
  else
    let shift := h.edgeCount - baseEdges
    let w := QueryGraph.wrap q.overlay w
    let views := (List.range q.overlay.pieces.size).filterMap q.pieceView
    .ok ⟨h, q, w, shift, (views.map (pieceEdge w shift)).toArray⟩

/-! ## §2. Ids. -/

/-- The id in the view of an edge of the query graph. -/
def toHierarchyId (v : HierarchyView K) (edge : EdgeId) : EdgeId :=
  if v.query.isVirtualEdge edge then edge + v.shift else edge

/-- The id in the query graph of an edge of the view that is no shortcut. -/
def ofHierarchyId (v : HierarchyView K) (edge : EdgeId) : EdgeId :=
  if v.below.edgeCount ≤ edge then edge - v.shift else edge

/-! ## §3. Edges. -/

/-- The pieces at some places, open in a given direction. -/
def openPieces (v : HierarchyView K) (forward : Bool) (indices : List Nat) :
    List (HierarchyEdge K) :=
  (indices.filterMap fun i => v.pieces[i]?).filter fun e =>
    isFinite (if forward then e.weightForward else e.weightBackward)

/-- The edges at a node: at a virtual node its pieces, at a real node beside one its pieces and
the edges of the hierarchy without the roads that the overlay has cut. -/
def edgesAt (v : HierarchyView K) (forward : Bool) (below : NodeId → List (HierarchyEdge K))
    (node : NodeId) : List (HierarchyEdge K) :=
  let o := v.query.overlay
  if o.isVirtualNode node then v.openPieces forward (o.leaving node)
  else match o.delta? node with
    | none => below node
    | some d =>
      v.openPieces forward d.additions
        ++ (below node).filter fun e => e.underlying.all fun road => !d.isRemoved road

def outEdges (v : HierarchyView K) (node : NodeId) : List (HierarchyEdge K) :=
  v.edgesAt true v.below.outEdges node

def inEdges (v : HierarchyView K) (node : NodeId) : List (HierarchyEdge K) :=
  v.edgesAt false v.below.inEdges node

/-- The piece at a place, which must be there. -/
def pieceOrFail (v : HierarchyView K) (index : Nat) : Except (Error K) (HierarchyEdge K) :=
  match v.pieces[index]? with
  | some e => .ok e
  | none => .error .outOfRange

/-- **The edge with an id**, as it leads to a node or in its own direction. -/
def edge (v : HierarchyView K) (edge : EdgeId) (adj : Option NodeId) :
    Except (Error K) (HierarchyEdge K) :=
  if edge < v.below.edgeCount then v.below.edge edge adj
  else
    let o := v.query.overlay
    match o.index? (v.ofHierarchyId edge) with
    | none => .error (.edgeNotFound edge)
    | some index => do
      let found ← v.pieceOrFail index
      match adj with
      | none => return found
      | some n =>
        if found.adj = n then return found
        else if found.base = n then
          let some p := o.piece? index | throw .outOfRange
          v.pieceOrFail p.pair
        else throw (.edgeNotAdjacent edge n)

def level (v : HierarchyView K) (node : NodeId) : Nat :=
  if v.query.isVirtualNode node then topLevel else v.below.level node

def turnWeight (v : HierarchyView K) (turn : Turn) : K :=
  if v.below.hasTurnCosts then v.weighting.turnWeight turn else 0

/-- **The view as a search sees it.** -/
def routing (v : HierarchyView K) : RoutingHierarchy K :=
  { nodeCount := v.query.nodeCount
    edgeCount := v.below.edgeCount + v.query.overlay.edgeCount
    baseEdgeCount := v.below.baseEdgeCount
    outEdges := v.outEdges
    inEdges := v.inEdges
    edge := v.edge
    level := v.level
    turnWeight := v.turnWeight
    hasTurnCosts := v.below.hasTurnCosts
    isEdgeBased := v.below.isEdgeBased }

end HierarchyView

end RoadSplice

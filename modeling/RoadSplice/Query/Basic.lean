/-
  RoadSplice.Query.Basic — a road graph and an overlay, seen as one graph.

  Nodes and edges of the overlay are numbered after those of the road graph.  A real node next
  to a virtual one offers pieces instead of the roads that the overlay has cut; a virtual node
  offers the pieces to its two neighbours.
-/
import RoadSplice.Graph.Network
import RoadSplice.Overlay.Basic
import RoadSplice.Weighting.Basic

namespace RoadSplice

/-- A road graph with an overlay.  The marks of unfavored pieces lie in the overlay, so graphs
that are opened on one overlay share them; `tracked` lists those that this graph has set. -/
structure QueryGraph (K : Type) where
  base : RoadGraph K
  overlay : Overlay K
  /-- The places of the pieces that this graph has marked, in order. -/
  tracked : List Nat

namespace QueryGraph

variable {K : Type}

/-- Opens a graph on an overlay, with no marks of its own. -/
def ofOverlay (base : RoadGraph K) (overlay : Overlay K) : QueryGraph K := ⟨base, overlay, []⟩

variable [Scalar K]

/-! ## §1. Reading. -/

def nodeCount (q : QueryGraph K) : Nat := q.base.nodeCount + q.overlay.nodeCount

def edgeCount (q : QueryGraph K) : Nat := q.base.edgeCount + q.overlay.edgeCount

def isVirtualNode (q : QueryGraph K) (node : NodeId) : Bool := q.overlay.isVirtualNode node

def isVirtualEdge (q : QueryGraph K) (edge : EdgeId) : Bool := q.overlay.isVirtualEdge edge

def coordinate? (q : QueryGraph K) (node : NodeId) : Option (Point K) :=
  match q.overlay.node? node with
  | some v => some v.point
  | none => q.base.nodes[node]?

/-- The view of the piece at a place. -/
def pieceView (q : QueryGraph K) (index : Nat) : Option (EdgeView K) := q.overlay.view q.base index

/-- **The edges that leave a node.** -/
def edges (q : QueryGraph K) (node : NodeId) : List (EdgeView K) :=
  if q.isVirtualNode node then (q.overlay.leaving node).filterMap q.pieceView
  else match q.overlay.delta? node with
    | none => q.base.edges node
    | some d =>
      d.additions.filterMap q.pieceView ++ (q.base.edges node).filter fun v => !d.isRemoved v.edge

/-- The view at a place of the piece, which must be there. -/
def pieceViewOrFail (q : QueryGraph K) (index : Nat) : Except (Error K) (EdgeView K) :=
  match q.pieceView index with
  | some v => .ok v
  | none => .error .outOfRange

/-- **The view of an edge towards a node**, or in its own direction when none is named. -/
def edge (q : QueryGraph K) (edge : EdgeId) (adj : Option NodeId) : Except (Error K) (EdgeView K) :=
  match q.overlay.index? edge with
  | none => q.base.edge edge adj
  | some index =>
    match q.overlay.piece? index, adj with
    | none, _ => .error .outOfRange
    | some _, none => q.pieceViewOrFail index
    | some p, some n =>
      if p.adj = n then q.pieceViewOrFail index
      else if p.base = n then q.pieceViewOrFail p.pair
      else .error (.edgeNotAdjacent edge n)

/-- The same edge seen from its other end.  For a piece that is the piece paired with it. -/
def detach (q : QueryGraph K) (v : EdgeView K) : EdgeView K :=
  match v.piece with
  | none => q.base.detach v
  | some index =>
    (((q.overlay.piece? index).bind fun p => q.pieceView p.pair)).getD v

def otherNode (q : QueryGraph K) (edge : EdgeId) (node : NodeId) : Except (Error K) NodeId :=
  match q.overlay.virtualEdge? edge with
  | none => q.base.otherNode edge node
  | some p =>
    if p.base = node then .ok p.adj
    else if p.adj = node then .ok p.base
    else .error (.edgeNotAdjacent edge node)

def isAdjacent (q : QueryGraph K) (edge : EdgeId) (node : NodeId) : Bool :=
  match q.overlay.virtualEdge? edge with
  | none => q.base.isAdjacent edge node
  | some p => p.base == node || p.adj == node

/-! ## §2. Turns. -/

/-- A turn between the roads behind two edges. -/
def roadTurn (o : Overlay K) (turn : Turn) : Turn :=
  ⟨o.roadOf turn.inEdge, turn.via, o.roadOf turn.outEdge⟩

/-- **The cost of a turn across an overlay.**  A virtual node lies in the middle of a road:
passing it is free and turning round there is forbidden.  At real nodes the roads behind the
edges decide. -/
def acrossOverlay (o : Overlay K) (cost : Turn → K) (turn : Turn) : K :=
  if o.isVirtualNode turn.via then
    if o.isUTurn turn.inEdge turn.outEdge then Scalar.infinity else 0
  else cost (roadTurn o turn)

def turnCost (q : QueryGraph K) (turn : Turn) : K :=
  acrossOverlay q.overlay q.base.turns.cost turn

/-- A weighting carried over to a query graph. -/
def wrap (o : Overlay K) (w : Weighting K) : Weighting K :=
  { w with
    turnWeight := acrossOverlay o w.turnWeight
    turnMillis := fun turn =>
      if o.isVirtualNode turn.via then Millis.zero else w.turnMillis (roadTurn o turn) }

instance : Network (QueryGraph K) K where
  base q := q.base
  nodeCount := nodeCount
  edgeCount := edgeCount
  coordinate? := coordinate?
  edges := edges
  edge := edge
  detach := detach
  otherNode := otherNode
  isAdjacent := isAdjacent
  turnCost := turnCost

/-! ## §3. Refused changes. -/

/-- A query graph cannot be given roads, nodes or be copied. -/
def refusal (write : GraphWrite) : Error K := .readOnlyGraph write

/-- A change of the flag words of the road graph below, made through a query graph. -/
def edit {α : Type} (q : QueryGraph K) (change : Edit K α) :
    Except (Error K) α × QueryGraph K :=
  let (result, base) := change.run.run q.base
  (result, { q with base := base })

end QueryGraph

end RoadSplice

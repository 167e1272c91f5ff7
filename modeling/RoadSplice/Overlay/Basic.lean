/-
  RoadSplice.Overlay.Basic — virtual nodes and the pieces of roads between them.

  An overlay belongs to one request.  Its nodes and edges are numbered after those of the road
  graph.  Pieces come in pairs, one for each direction, and lie in a table; each virtual node
  has four slots that name pieces by their places in the table:

      base ---- v0 ---- v1 ---- adj
      slots of v0: [base→v0, v0→base, v0→v1, v1→v0]
      slots of v1: [v0→v1,   v1→v0,   v1→adj, adj→v1]

  so two slots may name one piece.  The id of a virtual edge is the number of a slot.
-/
import RoadSplice.Graph.RoadGraph
import Std.Data.TreeMap

namespace RoadSplice

/-! ## §1. The types. -/

/-- A node that a request adds on a road. -/
structure VirtualNode (K : Type) where
  point : Point K
  /-- The road on which it lies. -/
  road : EdgeId
deriving Repr

/-- A piece of a road, in one direction. -/
structure Piece (K : Type) where
  id : EdgeId
  /-- The road of which it is a part. -/
  road : EdgeId
  base : NodeId
  adj : NodeId
  distance : K
  reverse : Bool
  shape : Polyline K
  /-- The place of the same piece in the opposite direction. -/
  pair : Nat
  /-- Whether a heading speaks against using the piece. -/
  unfavored : Bool
deriving Repr

/-- What changes at a real node: the pieces that it offers, by their places in the table, and
the roads that it no longer offers. -/
structure Delta where
  additions : List Nat
  removals : List EdgeId
deriving DecidableEq, Repr

/-- The four slots of a virtual node. -/
inductive Slot where
  | baseToSnap
  | snapToBase
  | snapToAdj
  | adjToSnap
deriving DecidableEq, Repr

/-- Virtual nodes and pieces on top of a road graph. -/
structure Overlay (K : Type) where
  firstNode : NodeId
  firstEdge : EdgeId
  nodes : Array (VirtualNode K)
  pieces : Array (Piece K)
  slots : Array Nat
  deltas : Std.TreeMap NodeId Delta

/-! ## §2. Deltas. -/

namespace Delta

/-- No change. -/
def none : Delta := ⟨[], []⟩

def isRemoved (d : Delta) (edge : EdgeId) : Bool := d.removals.contains edge

/-- Offers one more piece, once. -/
def add (d : Delta) (piece : Nat) : Delta :=
  if d.additions.contains piece then d else { d with additions := d.additions ++ [piece] }

/-- Withdraws one more road, once. -/
def remove (d : Delta) (edge : EdgeId) : Delta :=
  if d.removals.contains edge then d else { d with removals := d.removals ++ [edge] }

end Delta

/-- The place of a slot among the four of its node. -/
def Slot.offset : Slot → Nat
  | baseToSnap => 0
  | snapToBase => 1
  | snapToAdj => 2
  | adjToSnap => 3

/-- The number of slots of a virtual node. -/
def slotsPerNode : Nat := 4

namespace Overlay

variable {K : Type}

/-- The overlay without virtual nodes, for a graph of so many nodes and edges. -/
def empty (nodeCount edgeCount : Nat) : Overlay K := ⟨nodeCount, edgeCount, #[], #[], #[], ∅⟩

/-! ## §3. Reading. -/

def nodeCount (o : Overlay K) : Nat := o.nodes.size

/-- The number of virtual edge ids. -/
def edgeCount (o : Overlay K) : Nat := o.slots.size

/-- A virtual node by its number in the graph. -/
def node? (o : Overlay K) (node : NodeId) : Option (VirtualNode K) :=
  if node < o.firstNode then none else o.nodes[node - o.firstNode]?

def isVirtualNode (o : Overlay K) (node : NodeId) : Bool := (o.node? node).isSome

/-- The place of the piece that a virtual edge id names. -/
def index? (o : Overlay K) (edge : EdgeId) : Option Nat :=
  if edge < o.firstEdge then none else o.slots[edge - o.firstEdge]?

def isVirtualEdge (o : Overlay K) (edge : EdgeId) : Bool := (o.index? edge).isSome

def piece? (o : Overlay K) (index : Nat) : Option (Piece K) := o.pieces[index]?

/-- The piece that a virtual edge id names. -/
def virtualEdge? (o : Overlay K) (edge : EdgeId) : Option (Piece K) :=
  (o.index? edge).bind o.piece?

/-- The place of the piece in a slot of a virtual node. -/
def slotOf? (o : Overlay K) (node : NodeId) (slot : Slot) : Option Nat :=
  if node < o.firstNode then none
  else o.slots[(node - o.firstNode) * slotsPerNode + slot.offset]?

def delta? (o : Overlay K) (node : NodeId) : Option Delta := o.deltas[node]?

/-- The road behind an edge id of the query graph. -/
def roadOf (o : Overlay K) (edge : EdgeId) : EdgeId :=
  ((o.virtualEdge? edge).map (·.road)).getD edge

/-- **Turning round**: leaving by the edge of arrival, or by the same piece backwards. -/
def isUTurn (o : Overlay K) (inEdge outEdge : EdgeId) : Bool :=
  inEdge == outEdge ||
    match o.index? inEdge, o.index? outEdge with
    | some a, some b => a == b || ((o.piece? a).map (·.pair)) == some b
    | _, _ => false

/-- The places of the pieces that leave a virtual node: back to its predecessor and on to its
successor. -/
def leaving (o : Overlay K) (node : NodeId) : List Nat :=
  [o.slotOf? node .snapToBase, o.slotOf? node .snapToAdj].filterMap id

/-! ## §4. Building. -/

/-- Adds a virtual node. -/
def pushNode (o : Overlay K) (point : Point K) (road : EdgeId) : Overlay K :=
  { o with nodes := o.nodes.push ⟨point, road⟩ }

/-- **Adds a piece in both directions**, and a slot for each. -/
def pushPair (o : Overlay K) (road : EdgeId) (start finish : NodeId) (reverse : Bool)
    (shape : Polyline K) (distance : K) : Overlay K :=
  let forward := o.pieces.size
  let backward := forward + 1
  let id := o.firstEdge + o.slots.size
  let there : Piece K := ⟨id, road, start, finish, distance, reverse, shape, backward, false⟩
  let back : Piece K :=
    ⟨id + 1, road, finish, start, distance, !reverse, shape.reverse, forward, false⟩
  { o with
    pieces := (o.pieces.push there).push back
    slots := (o.slots.push forward).push backward }

/-- Gives the last two slots to the next virtual node as well. -/
def repeatLastPair (o : Overlay K) : Overlay K :=
  match o.slots[o.slots.size - 2]?, o.slots[o.slots.size - 1]? with
  | some forward, some backward => { o with slots := (o.slots.push forward).push backward }
  | _, _ => o

/-- Sets or clears the mark of a piece. -/
def setUnfavored (o : Overlay K) (index : Nat) (unfavored : Bool) : Overlay K :=
  { o with pieces := o.pieces.modify index fun p => { p with unfavored := unfavored } }

/-! ## §5. Views. -/

variable [Scalar K]

/-- The view of a piece; its name and flags are those of the road behind it. -/
def view (o : Overlay K) (g : RoadGraph K) (index : Nat) : Option (EdgeView K) :=
  (o.piece? index).map fun p =>
    { edge := p.id
      base := p.base
      adj := p.adj
      reverse := p.reverse
      road := p.road
      piece := some index
      distance := p.distance
      shape := p.shape
      name := (g.roads[p.road]?.map (·.name)).getD ""
      word := g.word p.road
      unfavored := p.unfavored }

end Overlay

end RoadSplice

/-
  RoadSplice.Query.Heading — marking pieces that a heading speaks against.

  At a virtual node a request may ask to leave, or to arrive, in a given direction.  Pieces
  that deviate too far are marked as unfavored, always together with the piece paired with
  them, and the graph remembers which it has marked so that it can take the marks back.
-/
import RoadSplice.Geo.Angle
import RoadSplice.Query.Basic

namespace RoadSplice.QueryGraph

variable {K : Type} [Scalar K]

open Scalar

/-! ## §1. Marks. -/

/-- Sets one mark and remembers it, once. -/
def markOne (q : QueryGraph K) (index : Nat) : QueryGraph K :=
  { q with
    overlay := q.overlay.setUnfavored index true
    tracked := if q.tracked.contains index then q.tracked else q.tracked ++ [index] }

/-- **Marks a piece and its pair.** -/
def mark (q : QueryGraph K) (index : Nat) : QueryGraph K :=
  match q.overlay.piece? index with
  | none => q
  | some p => (q.markOne index).markOne p.pair

/-- Takes back the marks that this graph has set. -/
def clearMarks (q : QueryGraph K) : QueryGraph K :=
  { q with
    overlay := q.tracked.foldl (fun o index => o.setUnfavored index false) q.overlay
    tracked := [] }

/-- The pieces that this graph has marked, in order. -/
def marked (q : QueryGraph K) : List (EdgeView K) := q.tracked.filterMap q.pieceView

def checkNode (q : QueryGraph K) (node : NodeId) : Except (Error K) Unit :=
  if q.nodeCount ≤ node then .error (.nodeNotFound node) else .ok ()

/-! ## §2. Headings. -/

/-- The deviation, in radians, beyond which a piece is unfavored: about one hundred degrees. -/
def deviationLimit : K := 1.74

/-- The two slots of a virtual node whose pieces arrive there, or leave it. -/
def headingSlots (incoming : Bool) : List Slot :=
  if incoming then [.baseToSnap, .adjToSnap] else [.snapToBase, .snapToAdj]

/-- The direction of the last segment of a shape on arrival, of the first on leaving. -/
def travelOrientation? (shape : Polyline K) (incoming : Bool) : Option K :=
  let segment := if incoming then shape.segments.getLast? else shape.segments.head?
  segment.map fun (a, b) => Geo.orientation a.lat a.lon b.lat b.lon

/-- Whether a shape deviates too far from an orientation. -/
def deviates (favored : K) (incoming : Bool) (shape : Polyline K) : Bool :=
  match travelOrientation? shape incoming with
  | none => false
  | some travel => deviationLimit < abs (Geo.align favored travel - favored)

/-- Marks the piece in a slot if it deviates, and tells whether it does. -/
def enforceSlot (node : NodeId) (favored : K) (incoming : Bool) (q : QueryGraph K)
    (slot : Slot) : Except (Error K) (QueryGraph K × Bool) := do
  let some index := q.overlay.slotOf? node slot | throw .outOfRange
  let some piece := q.overlay.piece? index | throw .outOfRange
  if deviates favored incoming piece.shape then return (q.mark index, true) else return (q, false)

/-- **Enforces a heading at a node** and tells whether any piece is unfavored for it.  At real
nodes, and without a heading, there is nothing to do. -/
def enforceHeading (q : QueryGraph K) (node : NodeId) (heading : K) (incoming : Bool) :
    Except (Error K) (QueryGraph K × Bool) := do
  q.checkNode node
  if isNaN heading || !q.isVirtualNode node then return (q, false)
  if !within 0 360 heading then throw (.invalidHeading heading)
  let favored := Geo.ofAzimuth heading
  (headingSlots incoming).foldlM
    (fun (q, enforced) slot => do
      let (q, found) ← enforceSlot node favored incoming q slot
      return (q, enforced || found))
    (q, false)

/-! ## §3. Single pieces. -/

/-- The place of the piece as it arrives at a node. -/
def arriving? (o : Overlay K) (node : NodeId) (index : Nat) : Option Nat :=
  (o.piece? index).bind fun p =>
    if p.adj = node then some index else if p.base = node then some p.pair else none

/-- Marks the piece of an edge at a virtual node, and its pair. -/
def unfavorPair (q : QueryGraph K) (node : NodeId) (edge : EdgeId) :
    Except (Error K) (QueryGraph K) := do
  q.checkNode node
  if !q.isVirtualNode node then throw (.notVirtualNode node)
  let some index := q.overlay.index? edge | throw (.notVirtualEdge edge)
  let some arriving := arriving? q.overlay node index | throw (.edgeNotAdjacent edge node)
  return q.mark arriving

/-- Marks the pieces of some edges, up to the first edge that is not virtual. -/
def unfavorEdges (q : QueryGraph K) : List EdgeId → QueryGraph K
  | [] => q
  | edge :: rest =>
    match q.overlay.index? edge with
    | none => q
    | some index => (q.mark index).unfavorEdges rest

end RoadSplice.QueryGraph

/-
  RoadSplice.Snap.Basic — where a fix lands on the road graph.

  A snap names a road in one direction, a position along its shape and the point there.  It is
  *valid* once it also names a node of a graph.
-/
import RoadSplice.Geo.Distance
import RoadSplice.Graph.RoadGraph

namespace RoadSplice

/-! ## §1. The type. -/

/-- What a snapped point coincides with. -/
inductive Position where
  /-- An end of the road. -/
  | tower
  /-- An inner point of its shape. -/
  | pillar
  /-- A place between the point of the way index and the next one. -/
  | edge
deriving DecidableEq, Repr

/-- The written name of a position. -/
def Position.name : Position → String
  | tower => "tower"
  | pillar => "pillar"
  | edge => "edge"

/-- The position with a given name. -/
def Position.ofName? : String → Option Position
  | "tower" => some tower
  | "pillar" => some pillar
  | "edge" => some edge
  | _ => none

/-- Where a fix lands. -/
structure Snap (K : Type) where
  query : Point K
  closest : Option DirectedEdge
  node : Option NodeId
  /-- The place in the shape of the road, at or before the snapped point. -/
  wayIndex : Nat
  position : Position
  point : Option (Point K)
  /-- How far the snapped point lies from the fix. -/
  distance : K
deriving Repr

variable {K : Type} [Scalar K]

/-- The shape of a directed road that exists. -/
def DirectedEdge.shape (d : DirectedEdge) (g : RoadGraph K) : Except (Error K) (Polyline K) :=
  (g.edgeNodes d.edge).map fun _ => g.fullGeometry d.edge d.reverse

namespace Snap

/-- A fix that has landed nowhere yet. -/
def unplaced (query : Point K) : Snap K :=
  ⟨query, none, none, 0, .edge, none, Scalar.infinity⟩

/-- A fix that has landed on a road, its point not yet computed. -/
def onEdge (query : Point K) (closest : DirectedEdge) (wayIndex : Nat) (position : Position) :
    Snap K :=
  { unplaced query with closest := some closest, wayIndex := wayIndex, position := position }

def isValid (s : Snap K) : Bool := s.node.isSome

def setNode (s : Snap K) (node : NodeId) : Snap K := { s with node := some node }

/-! ## §2. The snapped point. -/

/-- The snap with its distance measured anew, if it has a point. -/
def measured (s : Snap K) : Snap K :=
  match s.point with
  | none => s
  | some p => { s with distance := Geo.haversineDistance s.query.lat s.query.lon p.lat p.lon }

/-- The foot of the fix on a segment, halfway up between its ends. -/
def footOn (query a b : Point K) (is3d : Bool) : Point K :=
  let (lat, lon) := Geo.crossingPoint query.lat query.lon a.lat a.lon b.lat b.lon
  ⟨lat, lon, if is3d then (a.ele + b.ele) / 2 else Scalar.nan⟩

/-- **The snap with its point and distance**, found from its road, way index and position. -/
def located (s : Snap K) (g : RoadGraph K) : Except (Error K) (Snap K) := do
  let some closest := s.closest | throw (.missingClosestEdge 0)
  let shape ← closest.shape g
  let outside : Error K := .invalidWayIndex closest.edge s.wayIndex shape.length
  let some here := shape.get? s.wayIndex | throw outside
  match s.position with
  | .tower =>
    let node := if s.wayIndex = 0 then closest.base else closest.adj
    return { s with node := some node, point := some here }.measured
  | .pillar => return { s with point := some here }.measured
  | .edge =>
    let some next := shape.get? (s.wayIndex + 1) | throw outside
    return { s with point := some (footOn s.query here next shape.is3d) }.measured

end Snap

end RoadSplice

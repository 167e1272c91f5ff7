/-
  RoadSplice.Itinerary.Basic — what a traveller is told.

  An itinerary lists where the wanted places were snapped, the legs between them and the line
  of the whole way.  Totals grow with the legs.
-/
import RoadSplice.Itinerary.Location
import RoadSplice.Numeric.Millis
import RoadSplice.Snap.Basic

namespace RoadSplice

/-- A wanted place and where it was snapped. -/
structure Stop (K : Type) where
  query : Location K
  snapped : Option (Location K)
  position : Position
  node : Option NodeId
  isVirtual : Bool
  /-- The metres between the place and the snapped point. -/
  distance : K
deriving Repr

/-- The way from one stop to the next. -/
structure Leg (K : Type) where
  source : NodeId
  target : NodeId
  distance : K
  weight : K
  millis : Millis
  edges : Nat
  virtualEdges : Nat
  /-- The weight that a search on a hierarchy found. -/
  hierarchyWeight : Option K
deriving Repr

/-- A whole journey. -/
structure Itinerary (K : Type) where
  stops : List (Stop K)
  legs : List (Leg K)
  distance : K
  weight : K
  millis : Millis
  points : List (Location K)
deriving Repr

variable {K : Type} [Scalar K]

/-- The place of a point. -/
def Point.location (p : Point K) : Location K := ⟨p.lat, p.lon⟩

/-- The stop that a snap stands for; nodes from `firstVirtual` on are virtual. -/
def Stop.ofSnap (firstVirtual : NodeId) (s : Snap K) : Stop K :=
  { query := s.query.location
    snapped := s.point.map (·.location)
    position := s.position
    node := s.node
    isVirtual := s.node.any (firstVirtual ≤ ·)
    distance := s.distance }

namespace Itinerary

/-- The journey that has not begun. -/
def start (stops : List (Stop K)) : Itinerary K := ⟨stops, [], 0, 0, Millis.zero, []⟩

/-- **One more leg**, with its shape.  The first point of the shape repeats the last one of the
way so far. -/
def push (it : Itinerary K) (leg : Leg K) (shape : Polyline K) : Itinerary K :=
  let fresh := if it.points.isEmpty then shape.points else shape.points.drop 1
  { it with
    legs := it.legs ++ [leg]
    distance := it.distance + leg.distance
    weight := it.weight + leg.weight
    millis := it.millis.plus leg.millis
    points := it.points ++ fresh.map (·.location) }

end Itinerary

end RoadSplice

/-
  RoadSplice.Fixture.Basic — road graphs as small documents.

  Nodes and roads are numbered by their places in their lists.  `Fixture.build` makes the graph
  and reports the first thing that cannot be: nodes come first, then roads (their ends, their
  pillars, their speed), then turns.
-/
import RoadSplice.Geo.Distance
import RoadSplice.Graph.RoadGraph
import RoadSplice.Weighting.Vehicle

namespace RoadSplice

/-! ## §1. The document. -/

structure PointFixture (K : Type) where
  lat : K
  lon : K
  ele : Option K
deriving Repr

structure EdgeFixture (K : Type) where
  source : NodeId
  target : NodeId
  pillars : List (PointFixture K)
  name : String
  speed : K
  oneway : Bool
  roadClass : RoadClass
  /-- The length, measured along the shape when it is not given. -/
  distance : Option K
deriving Repr

structure TurnFixture (K : Type) where
  turn : Turn
  /-- The cost; without one the turn is forbidden. -/
  cost : Option K
deriving Repr

structure Fixture (K : Type) where
  elevation : Bool
  nodes : List (PointFixture K)
  edges : List (EdgeFixture K)
  turns : List (TurnFixture K)
deriving Repr

/-! ## §2. The graph. -/

variable {K : Type} [Scalar K]

open Scalar

/-- A position on the globe.  Without elevations every one is unknown, with them a missing one
is zero. -/
def PointFixture.toPoint (p : PointFixture K) (is3d : Bool) : Except (Error K) (Point K) :=
  if within (-90) 90 p.lat && within (-180) 180 p.lon then
    .ok (if is3d then ⟨p.lat, p.lon, p.ele.getD 0⟩ else Point.flat p.lat p.lon)
  else .error (.coordinateOutOfRange p.lat p.lon)

namespace Fixture

/-- Places the nodes of a list from a number on. -/
def placeNodes (is3d : Bool) : NodeId → List (PointFixture K) → Edit K Unit
  | _, [] => pure ()
  | node, p :: rest => do
    RoadGraph.setNode node (← liftExcept (p.toPoint is3d))
    placeNodes is3d (node + 1) rest

/-- Adds a road with all that is known about it. -/
def addRoad (is3d : Bool) (car : VehicleEncoding K) (e : EdgeFixture K) : Edit K Unit := do
  let edge ← RoadGraph.addEdge e.source e.target 0
  let pillars ← liftExcept (e.pillars.mapM (·.toPoint is3d))
  RoadGraph.setPillars edge ⟨pillars, is3d⟩
  RoadGraph.setName edge e.name
  let measured := Geo.lengthOf ((← get).fullGeometry edge false)
  RoadGraph.setDistance edge (e.distance.getD measured)
  let v ← liftExcept ((← get).edge edge none)
  RoadGraph.setBool v car.access (.both true (!e.oneway))
  RoadGraph.setDecimal v car.speed (.both e.speed e.speed)
  RoadGraph.setEnum v car.roadClass (.along e.roadClass)

/-- Enters the cost of a turn between existing roads. -/
def addTurn (t : TurnFixture K) : Edit K Unit := do
  let count := (← get).edgeCount
  if count ≤ t.turn.inEdge then throw (.edgeNotFound t.turn.inEdge)
  if count ≤ t.turn.outEdge then throw (.edgeNotFound t.turn.outEdge)
  RoadGraph.setTurn t.turn t.cost

/-- The edits that make the graph of a document. -/
def edits (f : Fixture K) (car : VehicleEncoding K) : Edit K Unit := do
  placeNodes f.elevation 0 f.nodes
  f.edges.forM (addRoad f.elevation car)
  f.turns.forM addTurn

/-- **The graph of a document**, with the properties of a car registered. -/
def build (f : Fixture K) : Except (Error K) (RoadGraph K × VehicleEncoding K) := do
  let (car, _) ← VehicleEncoding.register FlagLayout.empty
  match (f.edits car).run.run (RoadGraph.empty f.elevation) with
  | (.ok (), g) => .ok (g, car)
  | (.error e, _) => .error e

end Fixture

end RoadSplice

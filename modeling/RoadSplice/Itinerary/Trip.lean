/-
  RoadSplice.Itinerary.Trip — planning a journey between places.

  All places are snapped and spliced into one overlay.  The legs are routed one after the other
  on one query graph; each begins with no marks but its own: those of the wanted heading on the
  first leg, those against turning back on the later ones.
-/
import RoadSplice.Hierarchy.Contract
import RoadSplice.Hierarchy.Route
import RoadSplice.Hierarchy.View
import RoadSplice.Itinerary.Basic
import RoadSplice.Overlay.Splice
import RoadSplice.Query.Heading
import RoadSplice.Search.Dijkstra
import RoadSplice.Snap.Index
import RoadSplice.Weighting.Speed

namespace RoadSplice

/-! ## §1. Wishes and failures. -/

/-- A wanted journey. -/
structure Trip (K : Type) where
  /-- The places to visit, in order. -/
  places : List (Location K)
  /-- The direction of departure, in degrees from the north. -/
  heading : Option K
  /-- Whether turning back at a place on the way is to be avoided. -/
  passThrough : Bool
  /-- Whether every leg is also routed on a hierarchy. -/
  withHierarchy : Bool
  config : WeightingConfig K

/-- Why a journey cannot be planned. -/
inductive TripError (K : Type) where
  | snapFailed (place : Location K) (cause : Error K)
  | noRoad (place : Location K)
  | overlayFailed (cause : Error K)
  | contractionFailed (cause : Error K)
  /-- A place was snapped, but to no node. -/
  | unresolved (place : Location K)
  | noRoute (source target : Location K)
  | other (cause : Error K)
deriving Repr

def TripError.message : TripError Float → String
  | snapFailed place cause => s!"Failed to snap {place.text}: {cause.message}"
  | noRoad place => s!"No accessible road near {place.text}"
  | overlayFailed cause => s!"Failed to build query overlay: {cause.message}"
  | contractionFailed cause => s!"Failed to contract graph: {cause.message}"
  | unresolved place => s!"Location {place.text} did not resolve to a node"
  | noRoute source target => s!"No route from {source.text} to {target.text}"
  | other cause => cause.message

namespace Trip

variable {K : Type} [Scalar K]

/-! ## §2. Snapping. -/

/-- The snap of a place onto a road that a car may use. -/
def snapPlace (g : RoadGraph K) (car : VehicleEncoding K) (index : LocationIndex K)
    (place : Location K) : Except (TripError K) (Snap K) := do
  let s ← (index.findClosest g place.lat place.lon car.accessible).mapError (.snapFailed place)
  if s.closest.isNone then throw (.noRoad place) else return s

/-- The node of a snap. -/
def nodeOf (s : Snap K) : Except (TripError K) NodeId :=
  match s.node with
  | some node => .ok node
  | none => .error (.unresolved s.query.location)

/-! ## §3. Legs. -/

/-- **The marks of a leg**, in place of those of the leg before it.  On the first leg they
enforce the heading; on a later one they speak against the last edge of the leg before it. -/
def markLeg (t : Trip K) (q : QueryGraph K) (leg : Nat) (source : NodeId)
    (previous : Option (Path K)) : Except (Error K) (QueryGraph K) :=
  let q := q.clearMarks
  if leg = 0 then
    match t.heading with
    | some heading => (q.enforceHeading source heading false).map (·.1)
    | none => .ok q
  else
    match t.passThrough, previous.bind (·.edges.getLast?) with
    | true, some arrival =>
      if q.isVirtualNode source && q.isVirtualEdge arrival then q.unfavorPair source arrival
      else .ok q
    | _, _ => .ok q

/-- The weight of the best way on a hierarchy viewed through a query graph. -/
def hierarchyWeight (h : RoutingHierarchy K) (q : QueryGraph K) (w : Weighting K)
    (source target : NodeId) : Except (Error K) (Option K) := do
  let view ← HierarchyView.make h q w
  return (← view.routing.route source target).map (·.weight)

/-- **Routing a leg** on a query graph with the marks of that leg: the path, the leg and its
shape.  There is none when the target cannot be reached. -/
def routeLeg (q : QueryGraph K) (w : Weighting K) (h : Option (RoutingHierarchy K))
    (source target : NodeId) : Except (Error K) (Option (Path K × Leg K × Polyline K)) := do
  match dijkstra q (QueryGraph.wrap q.overlay w) source target with
  | none => return none
  | some path =>
    let crossWeight ← match h with
      | some h => hierarchyWeight h q w source target
      | none => pure none
    let shape ← path.geometry q
    let leg : Leg K :=
      { source := source
        target := target
        distance := path.distance
        weight := path.weight
        millis := path.millis
        edges := path.edges.length
        virtualEdges := path.edges.countP q.isVirtualEdge
        hierarchyWeight := crossWeight }
    return some (path, leg, shape)

/-- A journey part way through. -/
structure Progress (K : Type) where
  query : QueryGraph K
  previous : Option (Path K)
  itinerary : Itinerary K

/-- A place and the node at which it is. -/
abbrev Visit (K : Type) := Location K × NodeId

/-- One more leg. -/
def advance (t : Trip K) (w : Weighting K) (h : Option (RoutingHierarchy K)) (p : Progress K)
    (leg : Nat) (source target : Visit K) : Except (TripError K) (Progress K) := do
  let q ← (t.markLeg p.query leg source.2 p.previous).mapError .other
  match ← (routeLeg q w h source.2 target.2).mapError .other with
  | none => throw (.noRoute source.1 target.1)
  | some (path, entry, shape) => return ⟨q, some path, p.itinerary.push entry shape⟩

/-- All legs between some places, in order. -/
def legs (t : Trip K) (w : Weighting K) (h : Option (RoutingHierarchy K)) (visits : List (Visit K))
    (start : Progress K) : Except (TripError K) (Progress K) :=
  (visits.zip (visits.drop 1)).zipIdx.foldlM
    (fun p ((source, target), leg) => t.advance w h p leg source target) start

/-! ## §4. The journey. -/

/-- What is settled before the first leg. -/
structure Preparation (K : Type) where
  overlay : Overlay K
  stops : List (Stop K)
  visits : List (Visit K)
  weighting : Weighting K
  hierarchy : Option (RoutingHierarchy K)

/-- Snaps the places, splices the snaps and contracts the graph if a hierarchy is wanted. -/
def prepare (t : Trip K) (g : RoadGraph K) (car : VehicleEncoding K) :
    Except (TripError K) (Preparation K) := do
  let index := LocationIndex.build g
  let found ← t.places.mapM (snapPlace g car index)
  let (result, snaps) := Overlay.build g found.toArray
  let overlay ← result.mapError .overlayFailed
  let snaps := snaps.toList.map (·.measured)
  let w := (SpeedWeighting.mk car t.config (some g.turns)).toWeighting
  let h ← if t.withHierarchy then
      ((contract g w).map fun h => some h.routing).mapError .contractionFailed
    else pure none
  let nodes ← snaps.mapM nodeOf
  return ⟨overlay, snaps.map (Stop.ofSnap overlay.firstNode), t.places.zip nodes, w, h⟩

/-- The journey before its first leg, on a query graph that has just been opened. -/
def Preparation.start (s : Preparation K) (g : RoadGraph K) : Progress K :=
  ⟨QueryGraph.ofOverlay g s.overlay, none, Itinerary.start s.stops⟩

/-- **Planning a journey** on a road graph. -/
def plan (t : Trip K) (g : RoadGraph K) (car : VehicleEncoding K) :
    Except (TripError K) (Itinerary K) := do
  let s ← t.prepare g car
  let done ← t.legs s.weighting s.hierarchy s.visits (s.start g)
  return done.itinerary

end Trip

end RoadSplice

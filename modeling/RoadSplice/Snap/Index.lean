/-
  RoadSplice.Snap.Index — finding the road nearest to a fix.

  The index holds every segment of every road.  Segments are ranked by their distance in plain
  degrees; among the nearest few the true distance decides.
-/
import RoadSplice.Snap.Basic

namespace RoadSplice

/-! ## §1. The index. -/

/-- A segment of a road. -/
structure Segment (K : Type) where
  edge : EdgeId
  /-- The place of the segment's first point in the shape of the road. -/
  index : Nat
  start : Point K
  finish : Point K
deriving Repr

/-- The segments of a road graph. -/
structure LocationIndex (K : Type) where
  segments : List (Segment K)
deriving Repr

variable {K : Type} [Scalar K]

open Scalar

namespace LocationIndex

/-- The segments of a road, in order. -/
def segmentsOf (g : RoadGraph K) (edge : EdgeId) : List (Segment K) :=
  (g.fullGeometry edge false).segments.zipIdx.map fun ((a, b), i) => ⟨edge, i, a, b⟩

/-- The index of a road graph. -/
def build (g : RoadGraph K) : LocationIndex K :=
  ⟨(List.range g.edgeCount).flatMap (segmentsOf g)⟩

def size (index : LocationIndex K) : Nat := index.segments.length

def isEmpty (index : LocationIndex K) : Bool := index.segments.isEmpty

/-! ## §2. Ranking. -/

/-- How many of the segments nearest in degrees are looked at. -/
def candidates : Nat := 32

end LocationIndex

namespace Segment

/-- The square of the distance between a position and a segment, in degrees. -/
def degreeDistance (s : Segment K) (lat lon : K) : K :=
  let dLon := s.finish.lon - s.start.lon
  let dLat := s.finish.lat - s.start.lat
  let share := ((lon - s.start.lon) * dLon + (lat - s.start.lat) * dLat)
    / (dLon * dLon + dLat * dLat)
  let (nearLon, nearLat) :=
    if 0 < share && share < 1 then (s.start.lon + dLon * share, s.start.lat + dLat * share)
    else if share ≤ 0 then (s.start.lon, s.start.lat)
    else (s.finish.lon, s.finish.lat)
  let x := nearLon - lon
  let y := nearLat - lat
  x * x + y * y

/-- How far along a segment its point nearest to a position lies. -/
def nearestShare (s : Segment K) (lat lon : K) : K :=
  clampUnit (Geo.projectionFactor lat lon s.start.lat s.start.lon s.finish.lat s.finish.lon)

/-- The true distance, squared and on a sphere of radius one, to the point of a segment at a
given share of the way. -/
def distanceAt (s : Segment K) (share lat lon : K) : K :=
  Geo.planeNormalizedDistance lat lon (s.start.lat + share * (s.finish.lat - s.start.lat))
    (s.start.lon + share * (s.finish.lon - s.start.lon))

end Segment

/-- A segment that was looked at. -/
structure Candidate (K : Type) where
  segment : Segment K
  share : K
  distance : K

/-- The segment at its point nearest to a position. -/
def Segment.candidate (s : Segment K) (lat lon : K) : Candidate K :=
  let share := s.nearestShare lat lon
  ⟨s, share, s.distanceAt share lat lon⟩

/-- The nearer of two candidates, the former on a tie. -/
def Candidate.nearer (best : Option (Candidate K)) (c : Candidate K) : Option (Candidate K) :=
  match best with
  | none => some c
  | some b => if c.distance < b.distance then some c else some b

/-- The way index and the position of a candidate on a shape of `points` points. -/
def Candidate.place (c : Candidate K) (points : Nat) : Nat × Position :=
  let i := c.segment.index
  if c.share ≤ 0 then
    if i = 0 then (0, .tower) else (i, .pillar)
  else if 1 ≤ c.share then
    if i + 2 = points then (points - 1, .tower) else (i + 1, .pillar)
  else (i, .edge)

namespace LocationIndex

/-! ## §3. Finding. -/

/-- The segments nearest to a position in degrees, nearest first. -/
def nearest (index : LocationIndex K) (lat lon : K) : List (Segment K) :=
  let ranked := index.segments.map fun s => (s.degreeDistance lat lon, s)
  let sorted := ranked.mergeSort fun (d, _) (e, _) => (order d e).isLE
  (sorted.take candidates).map (·.2)

/-- **The snap of a fix** onto the nearest road that the filter accepts. -/
def findClosest (index : LocationIndex K) (g : RoadGraph K) (lat lon : K)
    (accepts : EdgeView K → Bool) : Except (Error K) (Snap K) := do
  let query := Point.flat lat lon
  let seen ← (index.nearest lat lon).filterM fun s => return accepts (← g.edge s.edge none)
  let best := (seen.map fun s => s.candidate lat lon).foldl Candidate.nearer none
  match best with
  | none => return Snap.unplaced query
  | some c =>
    let edge := c.segment.edge
    let (a, b) ← g.edgeNodes edge
    let (wayIndex, position) := c.place (g.fullGeometry edge false).length
    (Snap.onEdge query ⟨edge, a, b, false⟩ wayIndex position).located g

end LocationIndex

end RoadSplice

/-
  RoadSplice.Geo.Distance — lengths on the ground and the foot of a perpendicular.

  Roads are measured in a plane: longitudes shrink by the cosine of the mean latitude, which is
  accurate for the short segments of a road.  How far a fix lies from its snap is measured on
  the sphere.
-/
import RoadSplice.Geo.Polyline

namespace RoadSplice.Geo

variable {K : Type} [Scalar K]

open Scalar

/-! ## §1. Lengths. -/

/-- The radius of the sphere on which roads are measured, in metres. -/
def planeRadius : K := 6371000

/-- The mean radius of the earth, in metres. -/
def meanRadius : K := 6371008.8

/-- By how much a degree of longitude shrinks between two latitudes. -/
def shrink (lat1 lat2 : K) : K := cos (radians ((lat1 + lat2) / 2))

/-- The length of the great circle between two positions. -/
def haversineDistance (lat1 lon1 lat2 lon2 : K) : K :=
  let theta1 := radians lat1
  let theta2 := radians lat2
  let dTheta := radians (lat2 - lat1)
  let dLambda := radians (lon2 - lon1)
  let across := sin (dTheta / 2)
  let along := sin (dLambda / 2)
  let a := across * across + cos theta1 * cos theta2 * (along * along)
  meanRadius * (2 * asin (sqrt a))

/-- The square of the plane distance on a sphere of radius one: it orders positions like the
distance itself. -/
def planeNormalizedDistance (lat1 lon1 lat2 lon2 : K) : K :=
  let dLat := radians (lat2 - lat1)
  let dLon := radians (lon2 - lon1)
  let left := shrink lat1 lat2 * dLon
  dLat * dLat + left * left

/-- The length of a straight segment in the plane. -/
def planeDistance (lat1 lon1 lat2 lon2 : K) : K :=
  planeRadius * sqrt (planeNormalizedDistance lat1 lon1 lat2 lon2)

/-- The length of a straight segment, with the climb when both elevations are known. -/
def planeDistance3d (a b : Point K) : K :=
  let level := planeDistance a.lat a.lon b.lat b.lon
  if a.hasElevation && b.hasElevation then
    let climb := b.ele - a.ele
    sqrt (level * level + climb * climb)
  else level

/-- **The length of a shape**: the sum over its segments, in order. -/
def lengthOf (s : Polyline K) : K :=
  s.segments.foldl
    (fun total (a, b) =>
      total + (if s.is3d then planeDistance3d a b else planeDistance a.lat a.lon b.lat b.lon))
    0

/-! ## §2. The nearest point of a segment. -/

/-- Where the perpendicular from `r` meets the line from `a` to `b`, as a share of the way from
`a` to `b`; zero for a segment without length. -/
def projectionFactor (rLat rLon aLat aLon bLat bLon : K) : K :=
  let s := shrink aLat bLat
  let aLon := aLon * s
  let bLon := bLon * s
  let rLon := rLon * s
  let dLon := bLon - aLon
  let dLat := bLat - aLat
  let norm := dLon * dLon + dLat * dLat
  if norm == 0 then 0 else ((rLon - aLon) * dLon + (rLat - aLat) * dLat) / norm

/-- The foot of the perpendicular from `r` on the line from `a` to `b`, as latitude and
longitude.  A line along a parallel or a meridian keeps that coordinate exactly. -/
def crossingPoint (rLat rLon aLat aLon bLat bLon : K) : K × K :=
  let s := shrink aLat bLat
  let aLonS := aLon * s
  let dLon := bLon * s - aLonS
  let dLat := bLat - aLat
  if dLat == 0 then (aLat, rLon)
  else if dLon == 0 then (rLat, aLon)
  else
    let factor := projectionFactor rLat rLon aLat aLon bLat bLon
    (aLat + factor * dLat, (aLonS + factor * dLon) / s)

end RoadSplice.Geo

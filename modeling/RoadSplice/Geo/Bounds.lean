/-
  RoadSplice.Geo.Bounds — the smallest rectangle around some positions.
-/
import RoadSplice.Numeric.Scalar

namespace RoadSplice

/-- A rectangle of latitudes and longitudes.  Before the first position it is turned inside
out, so that any position replaces its ends. -/
structure Bounds (K : Type) where
  minLat : K
  maxLat : K
  minLon : K
  maxLon : K
deriving Repr

namespace Bounds

variable {K : Type} [Scalar K]

open Scalar

/-- The rectangle around no position. -/
def empty : Bounds K := ⟨greatest, -greatest, greatest, -greatest⟩

def isValid (b : Bounds K) : Bool := b.minLon ≤ b.maxLon && b.minLat ≤ b.maxLat

/-- The rectangle widened to hold one more position. -/
def extend (b : Bounds K) (lat lon : K) : Bounds K :=
  ⟨least b.minLat lat, most b.maxLat lat, least b.minLon lon, most b.maxLon lon⟩

def contains (b : Bounds K) (lat lon : K) : Bool :=
  within b.minLat b.maxLat lat && within b.minLon b.maxLon lon

end Bounds

end RoadSplice

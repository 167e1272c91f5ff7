/-
  RoadSplice.Geo.Point — a position on the ground, in degrees, with an elevation if one is known.
-/
import RoadSplice.Numeric.Scalar

namespace RoadSplice

/-- A position.  An elevation that is not a number is an unknown one. -/
structure Point (K : Type) where
  lat : K
  lon : K
  ele : K
deriving Repr

namespace Point

variable {K : Type} [Scalar K]

open Scalar

/-- A position of unknown elevation. -/
def flat (lat lon : K) : Point K := ⟨lat, lon, nan⟩

def hasElevation (p : Point K) : Bool := !isNaN p.ele

/-- Two positions agree when their coordinates do and their elevations are equal or both
unknown. -/
def same (p q : Point K) : Bool :=
  p.lat == q.lat && p.lon == q.lon && (p.ele == q.ele || (isNaN p.ele && isNaN q.ele))

/-- The difference in degrees below which two positions count as one. -/
def tolerance : K := decimal 1 6

/-- **Coincidence**: both coordinates differ by less than the tolerance. -/
def coincides (p q : Point K) : Bool :=
  abs (p.lat - q.lat) < tolerance && abs (p.lon - q.lon) < tolerance

end Point

end RoadSplice

/-
  RoadSplice.Geo.Angle — directions of travel.

  An orientation is an angle in radians from the east, counter-clockwise, between `-π` and `π`.
  A heading is given as an azimuth: degrees from the north, clockwise.
-/
import RoadSplice.Geo.Distance

namespace RoadSplice.Geo

variable {K : Type} [Scalar K]

open Scalar

/-- The orientation of the way from the first position to the second. -/
def orientation (lat1 lon1 lat2 lon2 : K) : K :=
  atan2 (lat2 - lat1) ((lon2 - lon1) * shrink lat1 lat2)

/-- The orientation of an azimuth, turned once round if it would leave the range. -/
def ofAzimuth (azimuth : K) : K :=
  let angle := pi / 2 - radians azimuth
  if angle < -pi then angle + 2 * pi
  else if pi < angle then angle - 2 * pi
  else angle

/-- **Alignment**: `orientation`, turned once round if that brings it closer to `base`. -/
def align (base orientation : K) : K :=
  if 0 ≤ base then
    if orientation < -pi + base then orientation + 2 * pi else orientation
  else
    if pi + base < orientation then orientation - 2 * pi else orientation

end RoadSplice.Geo

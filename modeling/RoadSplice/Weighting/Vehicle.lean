/-
  RoadSplice.Weighting.Vehicle — what is stored about a road for cars.
-/
import RoadSplice.Flags.Layout
import RoadSplice.Graph.EdgeView

namespace RoadSplice

/-- The properties of a road that matter to a car. -/
structure VehicleEncoding (K : Type) where
  access : BoolProperty
  /-- The average speed in kilometres per hour. -/
  speed : DecimalProperty K
  roadClass : EnumProperty RoadClass
deriving Repr

namespace VehicleEncoding

variable {K : Type} [Scalar K]

/-- **Registers the properties of a car**: access and speed for each direction, the class of
the road for both. -/
def register (l : FlagLayout) : Except (Error K) (VehicleEncoding K × FlagLayout) := do
  let (access, l) ← l.addBool "car_access" true
  let (speed, l) ← l.addDecimal "car_average_speed" 5 5 true
  let (roadClass, l) ← l.addEnum RoadClass "road_class" false
  return (⟨access, speed, roadClass⟩, l)

/-- Whether a car may use an edge in some direction. -/
def accessible (e : VehicleEncoding K) (v : EdgeView K) : Bool :=
  v.getBool e.access false || v.getBool e.access true

end VehicleEncoding

end RoadSplice

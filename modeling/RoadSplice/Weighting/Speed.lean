/-
  RoadSplice.Weighting.Speed — travel time by average speed.

  An edge costs the seconds it takes at the average speed of its road, and a penalty if a
  heading speaks against it.  Leaving by the edge of arrival costs a fixed time; all other
  turns cost what the turn table says.
-/
import RoadSplice.Weighting.Basic
import RoadSplice.Weighting.Vehicle

namespace RoadSplice

/-- The settings of a weighting by speed. -/
structure WeightingConfig (K : Type) where
  /-- Seconds added to an unfavored edge. -/
  headingPenalty : K
  /-- Seconds for leaving by the edge of arrival. -/
  uTurnCost : K
  turnCosts : Bool
deriving Repr

/-- A weighting by speed. -/
structure SpeedWeighting (K : Type) where
  encoding : VehicleEncoding K
  config : WeightingConfig K
  /-- Where the costs of turns are looked up; without it they are free. -/
  turns : Option (TurnTable K)

variable {K : Type} [Scalar K]

open Scalar

/-- The settings for a car. -/
def WeightingConfig.car : WeightingConfig K := ⟨300, 40, true⟩

namespace SpeedWeighting

/-- The seconds an edge takes; nothing if it is closed or nobody moves on it. -/
def seconds? (w : SpeedWeighting K) (v : EdgeView K) (reverse : Bool) : Option K :=
  let speed := v.getDecimal w.encoding.speed reverse
  if !v.getBool w.encoding.access reverse || speed ≤ 0 then none
  else some (v.distance / (speed / 3.6))

/-- The seconds a turn takes. -/
def turnSeconds (w : SpeedWeighting K) (turn : Turn) : K :=
  if turn.inEdge = turn.outEdge then w.config.uTurnCost
  else match w.turns with
    | some table => table.cost turn
    | none => 0

def edgeWeight (w : SpeedWeighting K) (v : EdgeView K) (reverse : Bool) : K :=
  match w.seconds? v reverse with
  | some seconds => if v.unfavored then seconds + w.config.headingPenalty else seconds
  | none => infinity

def edgeMillis (w : SpeedWeighting K) (v : EdgeView K) (reverse : Bool) : Millis :=
  ((w.seconds? v reverse).map Millis.ofSeconds).getD Millis.unusable

def turnWeight (w : SpeedWeighting K) (turn : Turn) : K :=
  if w.config.turnCosts then w.turnSeconds turn else 0

/-- The time of a turn; a forbidden one takes none. -/
def turnMillis (w : SpeedWeighting K) (turn : Turn) : Millis :=
  let weight := w.turnWeight turn
  if isFinite weight then Millis.ofSeconds weight else Millis.zero

/-- **The weighting by speed.** -/
def toWeighting (w : SpeedWeighting K) : Weighting K :=
  { edgeWeight := w.edgeWeight
    edgeMillis := w.edgeMillis
    turnWeight := w.turnWeight
    turnMillis := w.turnMillis
    hasTurnCosts := w.config.turnCosts }

end SpeedWeighting

end RoadSplice

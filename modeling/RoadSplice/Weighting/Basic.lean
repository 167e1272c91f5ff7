/-
  RoadSplice.Weighting.Basic — what it costs to travel.

  A weighting gives every edge, in its own direction or the opposite one, and every turn a
  weight and a time.  An infinite weight closes the edge or the turn.
-/
import RoadSplice.Graph.EdgeView
import RoadSplice.Graph.TurnTable
import RoadSplice.Numeric.Millis

namespace RoadSplice

/-- The costs of edges and turns. -/
structure Weighting (K : Type) where
  edgeWeight : EdgeView K → (reverse : Bool) → K
  edgeMillis : EdgeView K → (reverse : Bool) → Millis
  turnWeight : Turn → K
  turnMillis : Turn → Millis
  /-- Whether turns cost anything at all. -/
  hasTurnCosts : Bool

end RoadSplice

/-
  RoadSplice.Graph.TurnTable — what it costs to turn from one road into another.
-/
import RoadSplice.Error
import Std.Data.HashMap

namespace RoadSplice

/-- Passing a node from one edge to another. -/
structure Turn where
  inEdge : EdgeId
  via : NodeId
  outEdge : EdgeId
deriving DecidableEq, Hashable, Repr

/-- The costs of the turns that are not free. -/
structure TurnTable (K : Type) where
  costs : Std.HashMap Turn K

namespace TurnTable

variable {K : Type}

/-- The table in which every turn is free. -/
def empty : TurnTable K := ⟨∅⟩

/-- Gives a turn a cost, in place of any it had. -/
def set (t : TurnTable K) (turn : Turn) (cost : K) : TurnTable K := ⟨t.costs.insert turn cost⟩

/-- The number of turns that were given a cost. -/
def size (t : TurnTable K) : Nat := t.costs.size

def isEmpty (t : TurnTable K) : Bool := t.size == 0

variable [Scalar K]

/-- Forbids a turn: its cost becomes infinite. -/
def restrict (t : TurnTable K) (turn : Turn) : TurnTable K := t.set turn Scalar.infinity

/-- **The cost of a turn**: the last one given, and nothing for a turn that was given none. -/
def cost (t : TurnTable K) (turn : Turn) : K := t.costs.getD turn 0

theorem cost_empty (turn : Turn) : (empty : TurnTable K).cost turn = 0 := by
  simp [cost, empty]

/-- **A cost given to a turn** changes that turn and no other. -/
theorem cost_set (t : TurnTable K) (turn other : Turn) (c : K) :
    (t.set turn c).cost other = if turn = other then c else t.cost other := by
  simp [cost, set, Std.HashMap.getD_insert]

end TurnTable

/-- A turn of finite cost is allowed. -/
def turnAllowed {K : Type} [Scalar K] (cost : K) : Bool := Scalar.isFinite cost

end RoadSplice

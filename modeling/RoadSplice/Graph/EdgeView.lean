/-
  RoadSplice.Graph.EdgeView — an edge as it is seen from one of its ends.

  A view belongs either to a road of the graph or to a piece of one that an overlay has cut
  off.  It carries all that a weighting may ask for; properties are read from the flag word of
  the road behind it, in the direction of the view.
-/
import RoadSplice.Flags.Property
import RoadSplice.Geo.Polyline

namespace RoadSplice

/-! ## §1. Directed edges. -/

/-- A road taken in one direction.  `reverse` tells that the direction is against the one in
which the road is stored. -/
structure DirectedEdge where
  edge : EdgeId
  base : NodeId
  adj : NodeId
  reverse : Bool
deriving DecidableEq, Repr

/-- The same road in the opposite direction. -/
def DirectedEdge.reversed (d : DirectedEdge) : DirectedEdge := ⟨d.edge, d.adj, d.base, !d.reverse⟩

theorem DirectedEdge.reversed_reversed (d : DirectedEdge) : d.reversed.reversed = d := by
  cases d
  simp [reversed]

/-! ## §2. Views. -/

/-- An edge seen from its base node. -/
structure EdgeView (K : Type) where
  /-- The id under which the edge is offered. -/
  edge : EdgeId
  base : NodeId
  adj : NodeId
  /-- Whether the view runs against the stored direction of the road. -/
  reverse : Bool
  /-- The road behind the edge. -/
  road : EdgeId
  /-- The place in the overlay, for a piece of a road. -/
  piece : Option Nat
  distance : K
  /-- The points from the base node to the adjacent node. -/
  shape : Polyline K
  name : String
  /-- The flag word of the road behind the edge. -/
  word : Word
  unfavored : Bool
deriving Repr

namespace EdgeView

variable {K : Type}

def isVirtual (v : EdgeView K) : Bool := v.piece.isSome

/-- The road and the direction of a view. -/
def directed (v : EdgeView K) : DirectedEdge := ⟨v.edge, v.base, v.adj, v.reverse⟩

/-- The direction of a view in the stored road, or the opposite one. -/
def direction (v : EdgeView K) (opposite : Bool) : Bool := v.reverse != opposite

def geometry (v : EdgeView K) (part : Portion) : Polyline K := v.shape.portion part

/-! ## §3. Reading properties. -/

def getInt (v : EdgeView K) (p : IntProperty) (opposite : Bool) : Nat :=
  p.read (v.direction opposite) v.word

def getBool (v : EdgeView K) (p : BoolProperty) (opposite : Bool) : Bool :=
  p.read (v.direction opposite) v.word

def getDecimal [Scalar K] (v : EdgeView K) (p : DecimalProperty K) (opposite : Bool) : K :=
  p.read (v.direction opposite) v.word

def getEnum {α : Type} [Enumerated α] (v : EdgeView K) (p : EnumProperty α) (opposite : Bool) : α :=
  p.read (v.direction opposite) v.word

/-! ## §4. Refused changes. -/

/-- The failure of changing the shape or the length of an edge through a view of it. -/
def refusal (v : EdgeView K) (write : GraphWrite) : Error K :=
  if v.isVirtual then .virtualEdgeMutation v.edge write else .readOnlyGraph write

end EdgeView

/-! ## §5. Assignments. -/

/-- A value for the direction of a view, for the opposite one, or one for each. -/
inductive Assignment (α : Type) where
  | along (value : α)
  | against (value : α)
  | both (along against : α)
deriving Repr

end RoadSplice

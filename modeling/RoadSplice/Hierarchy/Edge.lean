/-
  RoadSplice.Hierarchy.Edge — the edges of a hierarchy: roads and shortcuts.

  A shortcut stands for two edges in a row, which it names.  Every edge has a weight and a time
  for each direction; an infinite weight closes that direction.
-/
import RoadSplice.Error
import RoadSplice.Numeric.Millis

namespace RoadSplice

/-- An edge of a hierarchy, seen from its base node. -/
structure HierarchyEdge (K : Type) where
  edge : EdgeId
  /-- The edge of the graph below; a shortcut has none. -/
  underlying : Option EdgeId
  base : NodeId
  adj : NodeId
  /-- The two edges that a shortcut stands for. -/
  skipped : Option (EdgeId × EdgeId)
  weightForward : K
  weightBackward : K
  millisForward : Millis
  millisBackward : Millis
  distance : K
deriving Repr

namespace HierarchyEdge

variable {K : Type}

def isShortcut (e : HierarchyEdge K) : Bool := e.skipped.isSome

/-- **The same edge seen from its other end.** -/
def reversed (e : HierarchyEdge K) : HierarchyEdge K :=
  { edge := e.edge
    underlying := e.underlying
    base := e.adj
    adj := e.base
    skipped := e.skipped.map fun (first, second) => (second, first)
    weightForward := e.weightBackward
    weightBackward := e.weightForward
    millisForward := e.millisBackward
    millisBackward := e.millisForward
    distance := e.distance }

theorem reversed_reversed (e : HierarchyEdge K) : e.reversed.reversed = e := by
  obtain ⟨_, _, _, _, skipped, _, _, _, _, _⟩ := e
  cases skipped <;> rfl

/-- The edge as it leads to a node, or as it is when none is named. -/
def oriented (e : HierarchyEdge K) (adj : Option NodeId) : Except (Error K) (HierarchyEdge K) :=
  match adj with
  | none => .ok e
  | some n =>
    if n = e.adj then .ok e
    else if n = e.base then .ok e.reversed
    else .error (.edgeNotAdjacent e.edge n)

/-- Two edges agree in every field, numbers compared as numbers. -/
def same [Scalar K] (e f : HierarchyEdge K) : Bool :=
  e.edge == f.edge && e.underlying == f.underlying && e.base == f.base && e.adj == f.adj
    && e.skipped == f.skipped && e.weightForward == f.weightForward
    && e.weightBackward == f.weightBackward && e.millisForward == f.millisForward
    && e.millisBackward == f.millisBackward && e.distance == f.distance

end HierarchyEdge

end RoadSplice

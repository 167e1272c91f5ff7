/-
  RoadSplice.Error — what can go wrong, as causes.

  A failure names its cause and the ids and numbers involved; `Error.message` is the one place
  that puts it into words, and `Error.kind` says whose fault it is.
-/
import RoadSplice.Decimal.Shortest

namespace RoadSplice

/-- The number of a node. -/
abbrev NodeId := Nat

/-- The number of a road, or of a piece of one in an overlay. -/
abbrev EdgeId := Nat

/-! ## §1. Causes. -/

/-- A change that a graph may be asked for. -/
inductive GraphWrite where
  | addEdge
  | setNode
  | copy
  | setDistance
  | setGeometry
deriving DecidableEq, Repr

/-- Whose fault a failure is. -/
inductive ErrorKind where
  /-- A caller broke a rule of use. -/
  | contractViolation
  /-- The data contradict themselves. -/
  | invariantViolation
  /-- The input is not acceptable. -/
  | input
deriving DecidableEq, Repr

/-- A failure and its cause. -/
inductive Error (K : Type) where
  /-- A snap without a road cannot be spliced. -/
  | missingClosestEdge (index : Nat)
  /-- A position along a road lies outside its shape. -/
  | invalidWayIndex (edge : EdgeId) (wayIndex points : Nat)
  /-- Snaps of one road start from different ends of it. -/
  | inconsistentBaseNode (edge : EdgeId) (expected actual : NodeId)
  /-- The deltas of an overlay are built only once. -/
  | deltaMapNotEmpty (entries : Nat)
  | edgeNotAdjacent (edge : EdgeId) (node : NodeId)
  | edgeNotFound (edge : EdgeId)
  | nodeNotFound (node : NodeId)
  | notVirtualNode (node : NodeId)
  | notVirtualEdge (edge : EdgeId)
  /-- The ids of an overlay do not fit behind those of a hierarchy. -/
  | edgeIdOverflow (hierarchyEdges virtualEdges : Nat)
  /-- The search on hierarchies goes from node to node, not from edge to edge. -/
  | edgeBasedHierarchy
  | virtualEdgeMutation (edge : EdgeId) (write : GraphWrite)
  | readOnlyGraph (write : GraphWrite)
  | singleDirectionProperty (name : String)
  | propertyValueOutOfRange (name : String) (value max : K)
  | flagLayoutFull (name : String) (bits available : Nat)
  | invalidHeading (heading : K)
  /-- A coordinate of a fixture lies off the globe. -/
  | coordinateOutOfRange (lat lon : K)
  | unknownRoadClass (name : String)
  /-- A text is not a fixture. -/
  | malformedText
  /-- An index points outside its table. -/
  | outOfRange
deriving Repr

namespace Error

def kind {K : Type} : Error K → ErrorKind
  | invalidWayIndex .. | outOfRange => .invariantViolation
  | invalidHeading _ | propertyValueOutOfRange .. | flagLayoutFull .. | coordinateOutOfRange ..
  | unknownRoadClass _ | malformedText => .input
  | missingClosestEdge _ | inconsistentBaseNode .. | deltaMapNotEmpty _ | edgeNotAdjacent ..
  | edgeNotFound _ | nodeNotFound _ | notVirtualNode _ | notVirtualEdge _ | edgeIdOverflow ..
  | edgeBasedHierarchy | virtualEdgeMutation .. | readOnlyGraph _
  | singleDirectionProperty _ => .contractViolation

end Error

/-! ## §2. Words. -/

/-- The name of a change in messages. -/
def GraphWrite.label : GraphWrite → String
  | .addEdge => "add_edge"
  | .setNode => "set_node"
  | .copy => "copy_to"
  | .setDistance => "set_distance"
  | .setGeometry => "set_way_geometry"

/-- **The wording of each failure.** -/
def Error.message : Error Float → String
  | .missingClosestEdge index =>
    s!"snap #{index} has no closest edge, only valid snaps can be spliced into the graph"
  | .invalidWayIndex edge wayIndex points =>
    s!"way index {wayIndex} of edge {edge} became negative after reversing {points} points"
  | .inconsistentBaseNode edge expected actual =>
    s!"snaps on edge {edge} disagree on the base node: expected {expected}, got {actual}"
  | .deltaMapNotEmpty entries =>
    s!"edge delta map must be empty before building, found {entries} entries"
  | .edgeNotAdjacent edge node => s!"edge {edge} is not adjacent to node {node}"
  | .edgeNotFound edge => s!"edge {edge} does not exist"
  | .nodeNotFound node => s!"node {node} does not exist"
  | .notVirtualNode node => s!"node {node} is not a virtual node"
  | .notVirtualEdge edge => s!"edge {edge} is not a virtual edge"
  | .edgeIdOverflow hierarchyEdges virtualEdges =>
    s!"virtual edge ids overflow: {hierarchyEdges} CH edges + {virtualEdges} virtual edges "
      ++ "exceed the edge id range"
  | .edgeBasedHierarchy =>
    "edge-based hierarchies need an edge-based search, ch_route is node-based"
  | .virtualEdgeMutation edge write =>
    s!"virtual edge {edge} cannot be modified ({write.label})"
  | .readOnlyGraph write => s!"graph is read-only, {write.label} is not supported"
  | .singleDirectionProperty name => s!"property '{name}' stores a single direction"
  | .propertyValueOutOfRange name value max =>
    s!"value {Decimal.plain value} is out of range for property '{name}' (max {Decimal.plain max})"
  | .flagLayoutFull name bits available =>
    s!"flag layout is full: '{name}' needs {bits} bits but only {available} are left"
  | .invalidHeading heading => s!"heading {Decimal.plain heading} is outside [0, 360]"
  | .coordinateOutOfRange lat lon =>
    s!"invalid input: coordinate ({Decimal.plain lat}, {Decimal.plain lon}) "
      ++ "is outside the valid range"
  | .unknownRoadClass name => s!"invalid input: unknown road class '{name}'"
  | .malformedText => "malformed text"
  | .outOfRange => "index out of range"

end RoadSplice

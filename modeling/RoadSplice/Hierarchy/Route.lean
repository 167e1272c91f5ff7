/-
  RoadSplice.Hierarchy.Route — shortest paths on a hierarchy.

  Two searches climb towards each other, one from each end; the path leads over the node where
  the sum of both is least.  Shortcuts on it are then replaced by the edges for which they
  stand.
-/
import RoadSplice.Hierarchy.Basic
import RoadSplice.Search.Frontier
import RoadSplice.Search.Path
import Std.Data.TreeMap

namespace RoadSplice

variable {K : Type} [Scalar K]

open Scalar

/-! ## §1. One side of the search. -/

/-- How well a node has been reached, and over which edge. -/
structure Climb (K : Type) where
  weight : K
  edge : Option (HierarchyEdge K)
deriving Repr

/-- One of the two searches in progress. -/
structure ClimbSearch (K : Type) where
  labels : Std.TreeMap NodeId (Climb K)
  frontier : Frontier K

namespace ClimbSearch

def start (node : NodeId) : ClimbSearch K :=
  ⟨Std.TreeMap.empty.insert node ⟨0, none⟩, Frontier.start node⟩

end ClimbSearch

namespace RoutingHierarchy

/-- **Climbing**: an edge leads to a level that is no lower, or leaves a virtual node. -/
def climbs (h : RoutingHierarchy K) (e : HierarchyEdge K) : Bool :=
  h.level e.base == topLevel || h.level e.base ≤ h.level e.adj

/-- Relaxes an edge that climbs, at its weight in the direction of the search. -/
def relax (h : RoutingHierarchy K) (forward : Bool) (weight : K) (s : ClimbSearch K)
    (e : HierarchyEdge K) : ClimbSearch K :=
  let cost := if forward then e.weightForward else e.weightBackward
  let reached := weight + cost
  if h.climbs e && isFinite cost && (s.labels[e.adj]?).all (reached < ·.weight) then
    ⟨s.labels.insert e.adj ⟨reached, some e⟩, s.frontier.insert ⟨reached, e.adj⟩⟩
  else s

end RoutingHierarchy

/-! ## §2. Both sides. -/

/-- The best meeting of the two searches: the weight of the way and the node. -/
structure Meeting (K : Type) where
  weight : K
  node : Option NodeId
deriving Repr

/-- The two searches in progress. -/
structure Bidirectional (K : Type) where
  forward : ClimbSearch K
  backward : ClimbSearch K
  best : Meeting K

namespace Bidirectional

def start (source target : NodeId) : Bidirectional K :=
  ⟨ClimbSearch.start source, ClimbSearch.start target, ⟨infinity, none⟩⟩

/-- The side whose turn it is. -/
def side (b : Bidirectional K) (forward : Bool) : ClimbSearch K :=
  if forward then b.forward else b.backward

def setSide (b : Bidirectional K) (forward : Bool) (s : ClimbSearch K) : Bidirectional K :=
  if forward then { b with forward := s } else { b with backward := s }

/-- Whether neither side can still improve on the best meeting. -/
def isOver (b : Bidirectional K) : Bool :=
  b.best.weight ≤ b.forward.frontier.topWeight && b.best.weight ≤ b.backward.frontier.topWeight

/-- The meeting at a node that both sides have reached, if it is better than the best. -/
def meet (b : Bidirectional K) (forward : Bool) (e : FrontierEntry K) : Meeting K :=
  match (b.side (!forward)).labels[e.node]? with
  | none => b.best
  | some c =>
    let weight := e.weight + c.weight
    if weight < b.best.weight then ⟨weight, some e.node⟩ else b.best

/-- **One entry taken from the side that is less far.**  Nothing when that side is empty. -/
def step (h : RoutingHierarchy K) (b : Bidirectional K) : Option (Bidirectional K) :=
  let forward : Bool := b.forward.frontier.topWeight ≤ b.backward.frontier.topWeight
  let s := b.side forward
  match s.frontier with
  | [] => none
  | e :: rest =>
    let s := { s with frontier := rest }
    if (s.labels[e.node]?).all (·.weight < e.weight) then some (b.setSide forward s)
    else
      let edges := if forward then h.outEdges e.node else h.inEdges e.node
      let s := edges.foldl (h.relax forward e.weight) s
      some { b.setSide forward s with best := b.meet forward e }

/-- Runs the two searches to their end, with at most so many steps. -/
def run (h : RoutingHierarchy K) : Nat → Bidirectional K → Bidirectional K
  | 0, b => b
  | fuel + 1, b =>
    if b.isOver then b
    else match b.step h with
      | none => b
      | some b => run h fuel b

end Bidirectional

/-! ## §3. The way. -/

namespace RoutingHierarchy

/-- How many steps the two searches may take.  Where no weight is negative, every edge is relaxed
at most once on each side; the second factor leaves room for weights that are. -/
def limit (h : RoutingHierarchy K) : Nat :=
  let arcs := (List.range h.nodeCount).foldl
    (fun n v => n + (h.outEdges v).length + (h.inEdges v).length) 0
  (arcs + 2) * Nat.pow 2 h.nodeCount

/-- The edges by which one side has reached a node, the last one first.  There are none when the
way back goes round in a circle, as it may where weights are negative. -/
def climbed (labels : Std.TreeMap NodeId (Climb K)) :
    Nat → NodeId → Option (List (HierarchyEdge K))
  | 0, _ => none
  | fuel + 1, node =>
    match (labels[node]?).bind (·.edge) with
    | none => some []
    | some e => (climbed labels fuel e.base).map (e :: ·)

/-- An edge turned so that it leaves a node, if it can be. -/
def leavingFrom (e : HierarchyEdge K) (node : NodeId) : HierarchyEdge K :=
  if e.base = node then e else e.reversed

/-- **The edges for which an edge stands.**  The fuel bounds how deep shortcuts are nested. -/
def unpack (h : RoutingHierarchy K) :
    Nat → HierarchyEdge K → Except (Error K) (List (HierarchyEdge K))
  | fuel, e =>
    match e.skipped with
    | none => .ok [e]
    | some (first, second) =>
      match fuel with
      | 0 => .error .outOfRange
      | fuel + 1 => do
        let first := leavingFrom (← h.edge first none) e.base
        let second := leavingFrom (← h.edge second none) first.adj
        return (← unpack h fuel first) ++ (← unpack h fuel second)

/-- The edges of the way over a meeting node, in order and in its direction. -/
def chain (b : Bidirectional K) (meeting : NodeId) : Option (List (HierarchyEdge K)) := do
  let up ← climbed b.forward.labels b.forward.labels.size meeting
  let down ← climbed b.backward.labels b.backward.labels.size meeting
  return up.reverse ++ down.map (·.reversed)

/-- The path along some edges. -/
def pathAlong (source : NodeId) (weight : K) (edges : List (HierarchyEdge K)) : Path K :=
  { nodes := source :: edges.map (·.adj)
    edges := edges.filterMap (·.underlying)
    weight := weight
    distance := edges.foldl (fun total e => total + e.distance) 0
    millis := edges.foldl (fun total e => total.plus e.millisForward) Millis.zero }

/-- **The shortest path between two nodes** of a hierarchy that goes from node to node, if
there is one. -/
def route (h : RoutingHierarchy K) (source target : NodeId) :
    Except (Error K) (Option (Path K)) := do
  if h.isEdgeBased then throw .edgeBasedHierarchy
  if source = target then return some (Path.single source)
  let done := (Bidirectional.start source target).run h h.limit
  match done.best.node with
  | none => return none
  | some meeting =>
    match chain done meeting with
    | none => return none
    | some edges =>
      let parts ← edges.mapM fun e => h.unpack (e.edge + h.edgeCount + 1) e
      return some (pathAlong source done.best.weight parts.flatten)

end RoutingHierarchy

end RoadSplice

/-
  RoadSplice.Hierarchy.Contract — making a hierarchy from a road graph.

  Nodes are contracted in a fixed order.  For every way in and every way out of the node, a
  shortcut replaces the passage through it, unless a witness shows a way around that is no
  longer.  The search for a witness gives up after a fixed number of nodes, which may only add
  shortcuts that are not needed.
-/
import RoadSplice.Graph.RoadGraph
import RoadSplice.Hierarchy.Basic
import RoadSplice.Search.Frontier
import RoadSplice.Weighting.Basic
import Std.Data.TreeMap

namespace RoadSplice

variable {K : Type} [Scalar K]

open Scalar

/-! ## §1. Arcs. -/

/-- A way from one node to a neighbour, or from a neighbour to the node. -/
structure Arc (K : Type) where
  /-- The neighbour. -/
  node : NodeId
  edge : EdgeId
  weight : K
  millis : Millis
  distance : K
deriving Repr

/-- The arcs of a graph that is being contracted, at both their ends. -/
structure Arcs (K : Type) where
  out : Array (Array (Arc K))
  inc : Array (Array (Arc K))

namespace Arcs

def empty (nodes : Nat) : Arcs K := ⟨Array.replicate nodes #[], Array.replicate nodes #[]⟩

/-- **Adds an arc** between two nodes. -/
def add (a : Arcs K) (start finish : NodeId) (edge : EdgeId) (weight : K) (millis : Millis)
    (distance : K) : Arcs K :=
  { out := a.out.modify start (·.push ⟨finish, edge, weight, millis, distance⟩)
    inc := a.inc.modify finish (·.push ⟨start, edge, weight, millis, distance⟩) }

def outOf (a : Arcs K) (node : NodeId) : List (Arc K) := (a.out[node]?.getD #[]).toList

def into (a : Arcs K) (node : NodeId) : List (Arc K) := (a.inc[node]?.getD #[]).toList

/-- Adds the open directions of an edge that is no loop. -/
def addEdge (a : Arcs K) (e : HierarchyEdge K) : Arcs K :=
  if e.base = e.adj then a
  else
    let a := if isFinite e.weightForward then
        a.add e.base e.adj e.edge e.weightForward e.millisForward e.distance
      else a
    if isFinite e.weightBackward then
      a.add e.adj e.base e.edge e.weightBackward e.millisBackward e.distance
    else a

/-- The number of arcs at a node. -/
def degree (a : Arcs K) (node : NodeId) : Nat := (a.outOf node).length + (a.into node).length

end Arcs

/-! ## §2. Witnesses. -/

/-- How many nodes a search for a witness may settle. -/
def witnessLimit : Nat := 64

/-- A search for a witness in progress. -/
structure WitnessSearch (K : Type) where
  best : Std.TreeMap NodeId K
  frontier : Frontier K

namespace WitnessSearch

def start (node : NodeId) : WitnessSearch K :=
  ⟨Std.TreeMap.empty.insert node 0, Frontier.start node⟩

/-- Follows an arc, unless it leads to a node that may not be entered. -/
def relax (blocked : NodeId → Bool) (weight : K) (s : WitnessSearch K) (arc : Arc K) :
    WitnessSearch K :=
  let reached := weight + arc.weight
  let improves := (s.best[arc.node]?).all (reached < ·)
  if blocked arc.node || !improves then s
  else ⟨s.best.insert arc.node reached, s.frontier.insert ⟨reached, arc.node⟩⟩

/-- Runs the search with so many nodes left to settle.  It ends when the next entry weighs too
much, when it is the target, or when too many nodes have been settled. -/
def run (arcs : NodeId → List (Arc K)) (blocked : NodeId → Bool) (target : NodeId)
    (maxWeight : K) (left : Nat) (s : WitnessSearch K) : Bool :=
  match _frontier : s.frontier with
  | [] => false
  | e :: rest =>
    if maxWeight < e.weight then false
    else if e.node = target then true
    else if (s.best[e.node]?).any (· < e.weight) then
      run arcs blocked target maxWeight left { s with frontier := rest }
    else
      match left with
      | 0 => false
      | left + 1 =>
        run arcs blocked target maxWeight left
          ((arcs e.node).foldl (relax blocked e.weight) { s with frontier := rest })
termination_by (left, s.frontier.length)
decreasing_by
  · rw [_frontier]
    exact Prod.Lex.right _ (Nat.lt_succ_self rest.length)
  · exact Prod.Lex.left _ _ (by omega)

end WitnessSearch

/-- **Whether there is a way around**: from `start` to `target`, of weight at most `maxWeight`,
through nodes that are neither blocked nor `avoid`. -/
def hasWitness (arcs : Arcs K) (contracted : NodeId → Bool) (start target avoid : NodeId)
    (maxWeight : K) : Bool :=
  WitnessSearch.run arcs.outOf (fun n => n == avoid || contracted n) target maxWeight witnessLimit
    (WitnessSearch.start start)

/-! ## §3. Contracting. -/

/-- A contraction in progress. -/
structure Contraction (K : Type) where
  edges : Array (HierarchyEdge K)
  arcs : Arcs K
  contracted : Array Bool

namespace Contraction

def isContracted (c : Contraction K) (node : NodeId) : Bool := c.contracted[node]?.getD false

/-- **The shortcut for a passage** through a node, unless there is a way around. -/
def bridge (c : Contraction K) (node : NodeId) (enter leave : Arc K) : Contraction K :=
  let weight := enter.weight + leave.weight
  if enter.node = leave.node
      || hasWitness c.arcs c.isContracted enter.node leave.node node weight then c
  else
    let id := c.edges.size
    let millis := enter.millis.plus leave.millis
    let distance := enter.distance + leave.distance
    { c with
      edges := c.edges.push
        { edge := id
          underlying := none
          base := enter.node
          adj := leave.node
          skipped := some (enter.edge, leave.edge)
          weightForward := weight
          weightBackward := infinity
          millisForward := millis
          millisBackward := Millis.unusable
          distance := distance }
      arcs := c.arcs.add enter.node leave.node id weight millis distance }

/-- Contracts a node: every way in is paired with every way out, as they are at the start. -/
def contractNode (c : Contraction K) (node : NodeId) : Contraction K :=
  let open? (a : Arc K) : Bool := !c.isContracted a.node && a.node != node
  let enters := (c.arcs.into node).filter open?
  let leaves := (c.arcs.outOf node).filter open?
  let c := enters.foldl
    (fun c enter => leaves.foldl (fun c leave => c.bridge node enter leave) c) c
  { c with contracted := c.contracted.setIfInBounds node true }

/-- The order of contraction: by the number of arcs, then by number. -/
def nodeOrder (arcs : Arcs K) (nodes : Nat) : List NodeId :=
  let keyed := (List.range nodes).map fun v => (arcs.degree v, v)
  (keyed.mergeSort fun (d, v) (e, w) => d < e || (d == e && v ≤ w)).map (·.2)

end Contraction

/-- A road as an edge of the hierarchy. -/
def roadEdge (w : Weighting K) (v : EdgeView K) : HierarchyEdge K :=
  { edge := v.edge
    underlying := some v.edge
    base := v.base
    adj := v.adj
    skipped := none
    weightForward := w.edgeWeight v false
    weightBackward := w.edgeWeight v true
    millisForward := w.edgeMillis v false
    millisBackward := w.edgeMillis v true
    distance := v.distance }

/-- **The hierarchy of a road graph** under a weighting. -/
def contract (g : RoadGraph K) (w : Weighting K) : Except (Error K) (Hierarchy K) := do
  let views ← (List.range g.edgeCount).mapM fun id => g.edge id none
  let edges := (views.map (roadEdge w)).toArray
  let arcs := edges.foldl Arcs.addEdge (Arcs.empty g.nodeCount)
  let order := Contraction.nodeOrder arcs g.nodeCount
  let levels := order.zipIdx.foldl
    (fun (levels : Array Nat) (node, rank) => levels.setIfInBounds node rank)
    (Array.replicate g.nodeCount 0)
  let done := order.foldl Contraction.contractNode
    ⟨edges, arcs, Array.replicate g.nodeCount false⟩
  return Hierarchy.ofEdges g.edgeCount done.edges levels

end RoadSplice

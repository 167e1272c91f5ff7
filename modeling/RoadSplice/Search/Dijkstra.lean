/-
  RoadSplice.Search.Dijkstra — shortest paths from node to node.

  Nodes leave the frontier in the order of their weights; leaving a node, the search relaxes
  its edges.  An entry that a better one has overtaken is dropped when its turn comes.  Turns
  are charged between the edge by which a node was reached and the edge by which it is left.
-/
import RoadSplice.Search.Frontier
import RoadSplice.Search.Path
import RoadSplice.Weighting.Basic
import Std.Data.TreeMap

namespace RoadSplice

variable {K : Type} [Scalar K]

open Scalar

/-! ## §1. Labels. -/

/-- How well a node has been reached, and from where. -/
structure Label (K : Type) where
  weight : K
  millis : Millis
  /-- The previous node and the edge from there. -/
  parent : Option (NodeId × EdgeId)
deriving Repr

/-- The labels of the nodes that were reached. -/
abbrev Labels (K : Type) := Std.TreeMap NodeId (Label K)

/-- A search in progress. -/
structure Search (K : Type) where
  labels : Labels K
  frontier : Frontier K

namespace Search

/-- The search that has reached its first node. -/
def start (node : NodeId) : Search K :=
  ⟨Std.TreeMap.empty.insert node ⟨0, Millis.zero, none⟩, Frontier.start node⟩

/-! ## §2. Leaving a node. -/

/-- The weight and the time of an edge, with the turn into it; nothing if either is closed. -/
def edgeCost (w : Weighting K) (node : NodeId) (inEdge : Option EdgeId) (v : EdgeView K) :
    Option (K × Millis) :=
  let weight := w.edgeWeight v false
  let millis := w.edgeMillis v false
  if !isFinite weight then none
  else
    match inEdge, w.hasTurnCosts with
    | some inEdge, true =>
      let turn : Turn := ⟨inEdge, node, v.edge⟩
      let turnWeight := w.turnWeight turn
      if !isFinite turnWeight then none
      else some (weight + turnWeight, millis.plus (w.turnMillis turn))
    | _, _ => some (weight, millis)

/-- Whether a weight is better than what a node has been reached at. -/
def improves (labels : Labels K) (node : NodeId) (weight : K) : Bool :=
  match labels[node]? with
  | none => true
  | some l => weight < l.weight

/-- **Relaxing an edge**: its far node is labelled anew if it is reached better. -/
def relax (w : Weighting K) (e : FrontierEntry K) (label : Label K) (s : Search K)
    (v : EdgeView K) : Search K :=
  match edgeCost w e.node (label.parent.map (·.2)) v with
  | none => s
  | some (cost, millis) =>
    let weight := e.weight + cost
    if improves s.labels v.adj weight then
      { labels := s.labels.insert v.adj ⟨weight, label.millis.plus millis, some (e.node, v.edge)⟩
        frontier := s.frontier.insert ⟨weight, v.adj⟩ }
    else s

/-! ## §3. The search. -/

variable {G : Type} [Network G K]

/-- Runs a search until it leaves `target` or nothing is left, with at most so many entries
taken from the frontier; nothing if that was not enough. -/
def run (g : G) (w : Weighting K) (target : NodeId) : Nat → Search K → Option (Labels K)
  | fuel, s =>
    match s.frontier with
    | [] => some s.labels
    | e :: rest =>
      match fuel with
      | 0 => none
      | fuel + 1 =>
        match s.labels[e.node]? with
        | none => run g w target fuel { s with frontier := rest }
        | some label =>
          if e.weight ≤ label.weight then
            if e.node = target then some s.labels
            else
              run g w target fuel
                ((Network.edges g e.node).foldl (relax w e label) { s with frontier := rest })
          else run g w target fuel { s with frontier := rest }

/-- How many entries may be taken.  Where no weight is negative every edge is relaxed at most
once in each direction; the second factor leaves room for weights that are. -/
def limit (g : G) : Nat := (2 * Network.edgeCount g + 1) * Nat.pow 2 (Network.nodeCount g)

/-- The way back from a node along the parents, as the nodes and the edges of the way there;
nothing if it is longer than the fuel. -/
def trace (labels : Labels K) : Nat → NodeId → List NodeId → List EdgeId →
    Option (List NodeId × List EdgeId)
  | 0, _, _, _ => none
  | fuel + 1, node, nodes, edges =>
    match (labels[node]?).bind (·.parent) with
    | none => some (node :: nodes, edges)
    | some (parent, edge) => trace labels fuel parent (node :: nodes) (edge :: edges)

end Search

/-- The length of a way, if all its edges are there. -/
def Path.length? {G : Type} [Network G K] (g : G) (steps : List (EdgeId × NodeId)) : Option K :=
  steps.foldlM
    (fun total (edge, adj) =>
      match Network.edge g edge (some adj) with
      | .ok v => some (total + v.distance)
      | .error _ => none)
    0

/-- **The shortest path between two nodes**, if there is one. -/
def dijkstra {G : Type} [Network G K] (g : G) (w : Weighting K) (start target : NodeId) :
    Option (Path K) := do
  if start = target then return Path.single start
  let labels ← Search.run g w target (Search.limit g) (Search.start start)
  let label ← labels[target]?
  let (nodes, edges) ← Search.trace labels labels.size target [] []
  let distance ← Path.length? g (edges.zip (nodes.drop 1))
  return ⟨nodes, edges, label.weight, distance, label.millis⟩

end RoadSplice

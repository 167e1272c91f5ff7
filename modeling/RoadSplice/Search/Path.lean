/-
  RoadSplice.Search.Path — what a search answers.
-/
import RoadSplice.Graph.Network
import RoadSplice.Numeric.Millis

namespace RoadSplice

/-- A way through a graph: its nodes, the edges between them and what it costs. -/
structure Path (K : Type) where
  nodes : List NodeId
  edges : List EdgeId
  weight : K
  distance : K
  millis : Millis
deriving Repr

namespace Path

variable {K : Type} [Scalar K]

/-- The way from a node to itself. -/
def single (node : NodeId) : Path K := ⟨[node], [], 0, 0, Millis.zero⟩

/-- The edges of a path, each with the node that it leads to. -/
def steps (p : Path K) : List (EdgeId × NodeId) := p.edges.zip (p.nodes.drop 1)

variable {G : Type} [Network G K]

/-- The shapes of the steps of a path, in order. -/
def shapes (p : Path K) (g : G) : Except (Error K) (List (Polyline K)) :=
  p.steps.mapM fun (edge, adj) => (Network.edge g edge (some adj)).map (·.shape)

/-- Shapes one after the other, each junction listed once. -/
def joined (is3d : Bool) : List (Polyline K) → Polyline K
  | [] => Polyline.empty is3d
  | first :: rest =>
    rest.foldl (fun line s => line.append (s.portion .pillarsAndAdj)) ⟨first.points, is3d⟩

/-- **The shape of a path.**  A path without edges is the point of its node; a path with edges
needs a node. -/
def geometry (p : Path K) (g : G) : Except (Error K) (Polyline K) := do
  let is3d := (Network.base g).is3d
  if p.edges.isEmpty then
    match p.nodes.head? with
    | none => return Polyline.empty is3d
    | some node =>
      let some here := Network.coordinate? g node | throw .outOfRange
      return ⟨[here], is3d⟩
  else if p.nodes.isEmpty then throw .outOfRange
  else return joined is3d (← p.shapes g)

end Path

end RoadSplice

/-
  RoadSplice.Proofs.Graph.Adjacency — what the nodes of a new graph list, whatever was called.

  Nodes and roads are added by calls, in any order and with any numbers; some of the calls are
  refused.  Beside them goes an outline that knows of each call only how many nodes there are
  then and between which of them a road was added.  The tables of the graph follow the outline
  step by step, and from it alone one tells what each node offers.
-/
import RoadSplice.Proofs.Graph.Directions

namespace RoadSplice.RoadGraph

variable {K : Type}

/-! ## §1. Calls, and the outline of a graph. -/

/-- A call that adds a node or a road. -/
inductive Addition (K : Type) where
  | setNode (node : NodeId) (p : Point K)
  | addEdge (a b : NodeId) (distance : K)

/-- How many nodes there are, and the ends of each road in the order of their numbers. -/
structure Outline where
  nodeCount : Nat
  ends : List (NodeId × NodeId)

namespace Outline

/-- **What a call adds.**  Placing a node brings those of smaller numbers with it; a road comes
about only between nodes that exist. -/
def add (o : Outline) : Addition K → Outline
  | .setNode node _ => { o with nodeCount := max o.nodeCount (node + 1) }
  | .addEdge a b _ =>
    if a < o.nodeCount ∧ b < o.nodeCount then { o with ends := o.ends ++ [(a, b)] } else o

/-- What a list of calls adds to nothing. -/
def ofAdditions (calls : List (Addition K)) : Outline := calls.foldl add ⟨0, []⟩

/-- **A direction leaves a node**: its road begins there and is taken as it is stored, or ends
there, having begun elsewhere, and is taken against that. -/
def Leaves (o : Outline) (n : NodeId) (d : DirectedEdge) : Prop :=
  ∃ a b, o.ends[d.edge]? = some (a, b) ∧
    (a = n ∧ d = ⟨d.edge, n, b, false⟩ ∨ a ≠ n ∧ b = n ∧ d = ⟨d.edge, n, a, true⟩)

end Outline

/-- The graph that a call leaves, refused or not. -/
def add [Scalar K] (g : RoadGraph K) : Addition K → RoadGraph K
  | .setNode node p => after (setNode node p) g
  | .addEdge a b d => after (addEdge a b d) g

/-- The graph that a list of calls makes of the graph without nodes. -/
def ofAdditions [Scalar K] (is3d : Bool) (calls : List (Addition K)) : RoadGraph K :=
  calls.foldl add (empty is3d)

/-! ## §2. The tables follow the outline. -/

/-- **A graph and its outline**, with the lists at the nodes in the order of the roads. -/
structure Follows (g : RoadGraph K) (o : Outline) : Prop where
  wellFormed : g.WellFormed
  nodes : g.nodeCount = o.nodeCount
  ends : g.roads.toList.map (fun r => (r.a, r.b)) = o.ends
  words : g.words.size = g.edgeCount
  increasing : ∀ n, (g.incidentAt n).Pairwise (· < ·)

namespace Follows

variable {g : RoadGraph K} {o : Outline}

/-- **A new road has the greatest number**, so that it is listed last at each of its ends; at a
loop, which has but one, it is listed once. -/
theorem joinNodes (h : g.Follows o) {a b : NodeId} (d : K) (ha : a < g.nodeCount)
    (hb : b < g.nodeCount) :
    (g.joinNodes a b d).Follows { o with ends := o.ends ++ [(a, b)] } where
  wellFormed := h.wellFormed.joinNodes d ha hb
  nodes := h.nodes
  ends := by
    show (g.roads.push _).toList.map _ = _
    rw [Array.toList_push, List.map_append, h.ends]
    rfl
  words := by
    show (g.words.push 0).size = (g.roads.push _).size
    rw [Array.size_push, Array.size_push, h.words]
    rfl
  increasing n := by
    have hsize := h.wellFormed.incident_size
    rw [incidentAt_joinNodes g d (hsize ▸ ha) (hsize ▸ hb)]
    split
    · -- What is listed so far are earlier roads.
      have hlt : ∀ e ∈ g.incidentAt n, e < g.edgeCount := by
        intro e he
        obtain ⟨r, hr, -⟩ := (h.wellFormed.mem_incidentAt n e).1 he
        exact (Array.getElem?_eq_some_iff.1 hr).1
      rw [List.pairwise_append]
      refine ⟨h.increasing n, List.pairwise_singleton _ _, ?_⟩
      intro e he e' he'
      rw [List.mem_singleton.1 he']
      exact hlt e he
    · exact h.increasing n

section

variable [Scalar K]

theorem empty (is3d : Bool) : (empty is3d : RoadGraph K).Follows ⟨0, []⟩ where
  wellFormed := wellFormed_empty is3d
  nodes := rfl
  ends := rfl
  words := rfl
  increasing n := by simp [incidentAt, RoadGraph.empty]

/-- Placing a node changes neither roads nor lists. -/
theorem placeNode (h : g.Follows o) (node : NodeId) (p : Point K) :
    (g.placeNode node p).Follows { o with nodeCount := max o.nodeCount (node + 1) } where
  wellFormed := h.wellFormed.placeNode node p
  nodes := by
    have hcount := h.nodes
    unfold nodeCount at hcount ⊢
    simp only [RoadGraph.placeNode, grow, Array.size_setIfInBounds, Array.size_append,
      Array.size_replicate]
    omega
  ends := h.ends
  words := h.words
  increasing n := by
    have hlist : (g.placeNode node p).incidentAt n = g.incidentAt n :=
      congrArg Array.toList (getD_grow g.incident (node + 1) n)
    rw [hlist]
    exact h.increasing n

/-- **One call** changes a graph as it changes the outline. -/
theorem add (h : g.Follows o) (c : Addition K) : (g.add c).Follows (o.add c) := by
  cases c with
  | setNode node p => exact h.placeNode node p
  | addEdge a b d =>
    show (after (addEdge a b d) g).Follows (if a < o.nodeCount ∧ b < o.nodeCount then _ else o)
    by_cases hnodes : a < g.nodeCount ∧ b < g.nodeCount
    · rw [if_pos (h.nodes ▸ hnodes), after_addEdge_of_lt d hnodes.1 hnodes.2]
      exact h.joinNodes d hnodes.1 hnodes.2
    · rw [if_neg (h.nodes ▸ hnodes)]
      have hrefused : after (addEdge a b d) g = g := by
        apply (after_addEdge a b d g).resolve_right
        intro hadded
        exact hnodes ⟨hadded.1, hadded.2.1⟩
      rw [hrefused]
      exact h

/-- **Any calls**, one after the other. -/
theorem foldl (h : g.Follows o) (calls : List (Addition K)) :
    (calls.foldl RoadGraph.add g).Follows (calls.foldl Outline.add o) := by
  induction calls generalizing g o with
  | nil => exact h
  | cons c calls ih => exact ih (h.add c)

end

/-! ## §3. What the nodes of a new graph offer. -/

/-- The ends of a road, read from the outline. -/
theorem ends_eq_some_iff (h : g.Follows o) {edge : EdgeId} {a b : NodeId} :
    o.ends[edge]? = some (a, b) ↔ ∃ r, g.roads[edge]? = some r ∧ r.a = a ∧ r.b = b := by
  rw [← h.ends, List.getElem?_map, Array.getElem?_toList]
  cases g.roads[edge]? with
  | none => simp
  | some r => simp

/-- **The directions that a graph offers at a node** are those that leave it in the outline. -/
theorem leaves_iff (h : g.Follows o) {n : NodeId} {d : DirectedEdge} :
    o.Leaves n d ↔ g.Offers d ∧ d.base = n := by
  constructor
  · intro hleaves
    obtain ⟨a, b, hends, hdir⟩ := hleaves
    obtain ⟨r, hr, rfl, rfl⟩ := h.ends_eq_some_iff.1 hends
    cases hdir with
    | inl hstored =>
      obtain ⟨rfl, hd⟩ := hstored
      refine ⟨⟨⟨r, hr, .inl hd⟩, ?_⟩, ?_⟩
      · intro _
        rw [hd]
      · rw [hd]
    | inr hagainst =>
      obtain ⟨hne, rfl, hd⟩ := hagainst
      refine ⟨⟨⟨r, hr, .inr hd⟩, ?_⟩, ?_⟩
      · -- A road taken against its direction is no loop.
        intro hloop
        rw [hd] at hloop
        exact absurd hloop.symm hne
      · rw [hd]
  · intro hoffers
    obtain ⟨⟨⟨r, hr, hdir⟩, hloop⟩, hn⟩ := hoffers
    refine ⟨r.a, r.b, h.ends_eq_some_iff.2 ⟨r, hr, rfl, rfl⟩, ?_⟩
    cases hdir with
    | inl hd =>
      have ha : r.a = n := by
        rw [← hn, hd]
      exact .inl ⟨ha, ha ▸ hd⟩
    | inr hd =>
      have hb : r.b = n := by
        rw [← hn, hd]
      refine .inr ⟨?_, hb, hb ▸ hd⟩
      intro ha
      have hreverse : d.reverse = false := by
        apply hloop
        rw [hd]
        exact hb.trans ha.symm
      rw [hd] at hreverse
      cases hreverse

end Follows

variable [Scalar K]

/-- **What the nodes of a graph list, and what its tables hold**, by an outline. -/
structure ListsExactly (g : RoadGraph K) (o : Outline) : Prop where
  /-- There are the nodes and the roads of the outline. -/
  nodes : g.nodeCount = o.nodeCount
  roads : g.roads.toList.map (fun r => (r.a, r.b)) = o.ends
  /-- Each node has a list, and each road a flag word. -/
  lists : g.incident.size = g.nodes.size
  words : g.words.size = g.roads.size
  /-- A node offers edges in the order of their numbers, and no number twice. -/
  increasing : ∀ n, ((g.edges n).map (·.edge)).Pairwise (· < ·)
  /-- It offers the views of the directions that leave it, and no others. -/
  offered : ∀ n v, v ∈ g.edges n ↔ ∃ d, o.Leaves n d ∧ v = g.view d

/-- **The lists of a new graph are exact.**  After any calls, among them refused ones and calls
that leave gaps or make loops or parallel roads, every node offers the roads that end there: in
the order of their numbers, once each, and turned so that they begin at the node. -/
theorem additions_listed_exactly (is3d : Bool) (calls : List (Addition K)) :
    (ofAdditions is3d calls).ListsExactly (.ofAdditions calls) := by
  have h : (ofAdditions is3d calls).Follows (.ofAdditions calls) :=
    (Follows.empty is3d).foldl calls
  exact {
    nodes := h.nodes
    roads := h.ends
    lists := h.wellFormed.incident_size
    words := h.words
    increasing := by
      intro n
      rw [edges_map_edge h.wellFormed]
      exact h.increasing n
    offered := by
      intro n v
      rw [mem_edges h.wellFormed]
      constructor
      · intro hv
        obtain ⟨d, hd, hn, rfl⟩ := hv
        exact ⟨d, h.leaves_iff.2 ⟨hd, hn⟩, rfl⟩
      · intro hv
        obtain ⟨d, hleaves, rfl⟩ := hv
        obtain ⟨hd, hn⟩ := h.leaves_iff.1 hleaves
        exact ⟨d, hd, hn, rfl⟩ }

/-- A node with a gap before it, a loop, a refused road and a pair of parallel ones. -/
example (p : Point K) (d : K) :
    let g := ofAdditions false [.setNode 2 p, .addEdge 0 2 d, .addEdge 2 2 d, .addEdge 2 3 d,
      .addEdge 2 0 d]
    (g.edges 2).map (·.directed) = [⟨0, 2, 0, true⟩, ⟨1, 2, 2, false⟩, ⟨2, 2, 0, false⟩] := by
  cbv

end RoadSplice.RoadGraph

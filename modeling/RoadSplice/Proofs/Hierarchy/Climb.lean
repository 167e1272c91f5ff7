/-
  RoadSplice.Proofs.Hierarchy.Climb — one side of the search on a hierarchy.

  Each of the two sides is a wave over the edges that climb, at their weights in the direction of
  that side.  `Routable` is what the search asks of a hierarchy.
-/
import RoadSplice.Hierarchy.Route
import RoadSplice.Proofs.Search.Progress

namespace RoadSplice

open Wave

/-! ## §1. One side as a wave. -/

namespace ClimbSearch

/-- What the wave keeps of a label. -/
def readClimb (c : Climb Exact) : Exact × Option (HierarchyEdge Exact) := (c.weight, c.edge)

/-- The wave of one side. -/
def toWave (s : ClimbSearch Exact) : Wave (HierarchyEdge Exact) :=
  ⟨labelled readClimb s.labels, s.frontier⟩

theorem toWave_label {s : ClimbSearch Exact} {n : NodeId} {c : Climb Exact}
    (hc : s.labels[n]? = some c) : s.toWave.label n = some (c.weight, c.edge) := by
  simp [toWave, labelled, hc, readClimb]

theorem toWave_start (n : NodeId) : toWave (start n) = Wave.start n := by
  unfold toWave start Wave.start Frontier.start
  rw [labelled_start readClimb n _ (by simp [readClimb]), Exact.zero_eq]
  rfl

end ClimbSearch

/-- The edges that a side follows from a node. -/
def RoutingHierarchy.sideEdges {K : Type} (h : RoutingHierarchy K) (forward : Bool) (n : NodeId) :
    List (HierarchyEdge K) :=
  if forward then h.outEdges n else h.inEdges n

/-- What an edge costs a side. -/
def HierarchyEdge.cost (e : HierarchyEdge Exact) (forward : Bool) : Exact :=
  if forward then e.weightForward else e.weightBackward

namespace RoutingHierarchy

variable {h : RoutingHierarchy Exact}

/-- An edge as a link of a side. -/
def climbLink (forward : Bool) (e : HierarchyEdge Exact) : Link (HierarchyEdge Exact) :=
  ⟨e.adj, e.cost forward, e⟩

/-- The edges that climb, as links. -/
def climbLinks (h : RoutingHierarchy Exact) (forward : Bool) (n : NodeId) :
    List (Link (HierarchyEdge Exact)) :=
  ((h.sideEdges forward n).filter h.climbs).map (climbLink forward)

/-- A step of a climb. -/
def ClimbStep (h : RoutingHierarchy Exact) (forward : Bool) (u v : NodeId) (c : ℝ) : Prop :=
  ∃ e ∈ h.sideEdges forward u, h.climbs e = true ∧ e.adj = v ∧ e.cost forward = .real c

theorem follows_climbLinks {forward : Bool} {u v : NodeId} {c : ℝ} :
    Follows (h.climbLinks forward) u v c ↔ h.ClimbStep forward u v c := by
  simp [Follows, climbLinks, climbLink, ClimbStep, and_assoc]

/-- **Relaxing an edge that climbs** is relaxing its link. -/
theorem toWave_relax (forward : Bool) (weight : Exact) (s : ClimbSearch Exact)
    (e : HierarchyEdge Exact) :
    ClimbSearch.toWave (h.relax forward weight s e) =
      if h.climbs e then Wave.relax weight s.toWave (climbLink forward e) else s.toWave := by
  -- Both searches compare with the same label, one of them through its wave.
  have hlabel : (s.labels[e.adj]?).all (weight + e.cost forward < ·.weight) =
      (s.toWave.label e.adj).all (weight + e.cost forward < ·.1) := by
    show _ = Option.all _ ((s.labels[e.adj]?).map ClimbSearch.readClimb)
    cases s.labels[e.adj]? <;> rfl
  show ClimbSearch.toWave (if (h.climbs e && Scalar.isFinite (e.cost forward)
    && (s.labels[e.adj]?).all (weight + e.cost forward < ·.weight)) = true then _ else s) = _
  rw [hlabel]
  unfold Wave.relax climbLink
  by_cases hclimb : h.climbs e = true
  · simp only [hclimb, Bool.true_and, Bool.and_eq_true, ↓reduceIte]
    split
    · unfold ClimbSearch.toWave improve
      simp only [labelled_insert]
      rfl
    · rfl
  · simp [hclimb]

theorem toWave_leave (forward : Bool) (weight : Exact) (n : NodeId) (s : ClimbSearch Exact) :
    ClimbSearch.toWave ((h.sideEdges forward n).foldl (h.relax forward weight) s) =
      (h.climbLinks forward n).foldl (Wave.relax weight) s.toWave := by
  unfold climbLinks
  rw [List.foldl_map, List.foldl_filter]
  refine (List.foldl_hom ClimbSearch.toWave fun s e => ?_).symm
  rw [toWave_relax]

/-- **What the search asks of a hierarchy**: its lists of edges agree with the nodes that the
edges name, and no edge that can be taken has a negative weight. -/
structure Routable (h : RoutingHierarchy Exact) : Prop where
  node_based : h.isEdgeBased = false
  base_eq : ∀ forward n, ∀ e ∈ h.sideEdges forward n, e.base = n
  adj_lt : ∀ forward n, ∀ e ∈ h.sideEdges forward n, e.adj < h.nodeCount
  nonneg : ∀ forward n, ∀ e ∈ h.sideEdges forward n, ∀ c, e.cost forward = .real c → 0 ≤ c

theorem Routable.nonneg_links (hr : h.Routable) (forward : Bool) :
    Nonneg (h.climbLinks forward) := by
  intro n l hl c hc
  obtain ⟨e, he, rfl⟩ := List.mem_map.1 hl
  exact hr.nonneg forward n e (List.mem_filter.1 he).1 c hc

end RoutingHierarchy

end RoadSplice

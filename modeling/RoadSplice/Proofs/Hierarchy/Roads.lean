/-
  RoadSplice.Proofs.Hierarchy.Roads — the roads of a graph as a table.

  A contraction begins with the roads of a graph in their stored directions.  An edge of this
  table in either direction is a view of a road, and the open edges are the roads that a search
  may follow, except that loops are left out; no shortest walk needs them.
-/
import RoadSplice.Proofs.Graph.Directions
import RoadSplice.Proofs.Hierarchy.Listing
import RoadSplice.Proofs.Results
import RoadSplice.Proofs.Search.Dijkstra
import RoadSplice.Proofs.Weighting.Speed

namespace RoadSplice

open HierarchyEdge

/-! ## §1. The table of the roads. -/

/-- **The roads of a graph as edges of a hierarchy**, each at its number. -/
def roadTable {K : Type} [Scalar K] (g : RoadGraph K) (w : Weighting K) :
    Array (HierarchyEdge K) :=
  g.roads.mapIdx fun i r => roadEdge w (g.view ⟨i, r.a, r.b, false⟩)

variable {g : RoadGraph Exact} {w : SpeedWeighting Exact}

theorem roadTable_getElem? {K : Type} [Scalar K] {g : RoadGraph K} {w : Weighting K} {i : Nat}
    {e : HierarchyEdge K} : (roadTable g w)[i]? = some e ↔
      ∃ r, g.roads[i]? = some r ∧ e = roadEdge w (g.view ⟨i, r.a, r.b, false⟩) := by
  unfold roadTable
  rw [Array.getElem?_mapIdx, Option.map_eq_some_iff]
  simp only [eq_comm]

/-- **The roads are a table to grow from.** -/
theorem roadTable_spec {K : Type} [Scalar K] {g : RoadGraph K} (hg : g.WellFormed)
    (w : Weighting K) : RoadTable (roadTable g w) g.nodeCount where
  edge_eq i e he := by
    obtain ⟨r, -, rfl⟩ := roadTable_getElem?.1 he
    rfl
  skipped_eq e he := by
    obtain ⟨i, hi⟩ := Array.mem_iff_getElem?.1 he
    obtain ⟨r, -, rfl⟩ := roadTable_getElem?.1 hi
    rfl
  ends_lt e he := by
    obtain ⟨i, hi⟩ := Array.mem_iff_getElem?.1 he
    obtain ⟨r, hr, rfl⟩ := roadTable_getElem?.1 hi
    have htouches := (RoadGraph.hasDirection_stored hr).touches
    exact ⟨hg.touches_lt htouches.1, hg.touches_lt htouches.2⟩

/-- The roads that contraction reads are the table. -/
theorem mapM_edge_none {K : Type} [Scalar K] (g : RoadGraph K) (w : Weighting K) :
    ∃ views, (List.range g.edgeCount).mapM (fun id => g.edge id none) = .ok views ∧
      (views.map (roadEdge w)).toArray = roadTable g w := by
  obtain ⟨views, hviews, hall⟩ := mapM_ok (f := fun id => g.edge id none)
    (P := fun id v => ∃ r, g.roads[id]? = some r ∧ v = g.view ⟨id, r.a, r.b, false⟩)
    fun id (hid : id ∈ List.range g.edgeCount) => by
      have hr : g.roads[id]? = some _ := Array.getElem?_eq_getElem (List.mem_range.1 hid)
      exact ⟨_, RoadGraph.edge_stored hr, _, hr, rfl⟩
  refine ⟨views, hviews, ?_⟩
  have hlen : views.length = g.edgeCount := by simpa using hall.length_eq.symm
  refine Array.ext (by simp [roadTable, hlen, RoadGraph.edgeCount]) fun i hi hi' => ?_
  have hiv : i < views.length := by simpa using hi
  obtain ⟨r, hr, hv⟩ := (List.forall₂_iff_get.1 hall).2 i (by simpa [← hlen] using hiv) hiv
  have htable : (roadTable g w)[i]? = some (roadEdge w (g.view ⟨i, r.a, r.b, false⟩)) :=
    roadTable_getElem?.2 ⟨r, by simpa using hr, rfl⟩
  rw [Array.getElem?_eq_getElem hi', Option.some.injEq] at htable
  have hv' : views[i] = g.view ⟨i, r.a, r.b, false⟩ := by simpa using hv
  simp [htable, hv']

/-- **Opposite directions of a road** are opposite edges. -/
theorem roadEdge_reversed (g : RoadGraph Exact) (w : SpeedWeighting Exact) (d : DirectedEdge) :
    roadEdge w.toWeighting (g.view d.reversed) = (roadEdge w.toWeighting (g.view d)).reversed := by
  have hweight := w.edgeWeight_reversed g d
  have hmillis := w.edgeMillis_reversed g d
  simp only [roadEdge, HierarchyEdge.reversed, SpeedWeighting.toWeighting, hweight, hmillis]
  rfl

/-- **The table holds the directions of the roads.** -/
theorem inTable_roadTable {f : HierarchyEdge Exact} :
    InTable (roadTable g w.toWeighting) f ↔
      ∃ d, g.HasDirection d ∧ f = roadEdge w.toWeighting (g.view d) := by
  simp only [InTable, Array.mem_iff_getElem?, roadTable_getElem?]
  constructor
  · rintro (⟨i, r, hr, rfl⟩ | ⟨i, r, hr, hf⟩)
    · exact ⟨_, RoadGraph.hasDirection_stored hr, rfl⟩
    · refine ⟨_, (RoadGraph.hasDirection_stored hr).reversed, ?_⟩
      rw [roadEdge_reversed, ← hf, reversed_reversed]
  · rintro ⟨d, ⟨r, hr, hd | hd⟩, rfl⟩
    · exact .inl ⟨d.edge, r, hr, by rw [← hd]⟩
    · refine .inr ⟨d.edge, r, hr, ?_⟩
      rw [← roadEdge_reversed]
      conv_lhs => rw [hd]
      rfl

/-- An open edge of the table is a direction that a node offers. -/
theorem open_roadTable {f : HierarchyEdge Exact} :
    Open (roadTable g w.toWeighting) f ↔
      ∃ d, g.Offers d ∧ d.base ≠ d.adj ∧ (w.edgeWeight (g.view d) false).IsReal ∧
        f = roadEdge w.toWeighting (g.view d) := by
  constructor
  · rintro ⟨htable, hne, hfin⟩
    obtain ⟨d, hd, rfl⟩ := inTable_roadTable.1 htable
    exact ⟨d, hd.offers hne, hne, hfin, rfl⟩
  · rintro ⟨d, hd, hne, hfin, rfl⟩
    exact ⟨inTable_roadTable.2 ⟨d, hd.1, rfl⟩, hne, hfin⟩

/-! ## §2. Distances that are not negative. -/

/-- No road has a negative length. -/
def NonnegDistances (g : RoadGraph Exact) : Prop := ∀ r ∈ g.roads, 0 ≤ r.distance

theorem nonnegDistances_oneRoad (p q : Point Exact) (pillars : List (Point Exact)) {d : Exact}
    (hd : 0 ≤ d) (word : Nat) : NonnegDistances (RoadGraph.oneRoad p q pillars d word) := by
  intro r hr
  rw [(RoadGraph.oneRoad_eq p q pillars d word).2.1] at hr
  obtain rfl : r = _ := by simpa using hr
  exact hd

theorem NonnegDistances.view (hd : NonnegDistances g) {d : DirectedEdge}
    (h : g.HasDirection d) : 0 ≤ (g.view d).distance := by
  obtain ⟨r, hr, -⟩ := h
  have hview : (g.view d).distance = r.distance := by simp [RoadGraph.view, hr]
  rw [hview]
  exact hd r (Array.mem_of_getElem? hr)

/-- **Speed weights are not negative** on such roads. -/
theorem nonnegTable_roadTable (hd : NonnegDistances g) (w : SpeedWeighting Exact) :
    NonnegTable (roadTable g w.toWeighting) := by
  intro f hf c hc
  obtain ⟨d, hdir, rfl⟩ := inTable_roadTable.1 hf
  exact w.edgeWeight_nonneg rfl (.inl (hd.view hdir)) hc

/-! ## §3. Walks over roads. -/

/-- A road that a search may follow, in the table's words. -/
theorem edgeStep_iff (hg : g.WellFormed) {u v : NodeId} {c : ℝ} :
    EdgeStep g w.toWeighting u v c ↔
      ∃ d, g.Offers d ∧ d.base = u ∧ d.adj = v ∧ w.edgeWeight (g.view d) false = .real c := by
  constructor
  · rintro ⟨e, he, rfl, hc⟩
    obtain ⟨d, hd, rfl, rfl⟩ := (RoadGraph.mem_edges hg).1 he
    exact ⟨d, hd, rfl, rfl, hc⟩
  · rintro ⟨d, hd, rfl, rfl, hc⟩
    exact ⟨g.view d, (RoadGraph.mem_edges hg).2 ⟨d, hd, rfl, rfl⟩, rfl, hc⟩

theorem nonnegWeights (hg : g.WellFormed) (hd : NonnegDistances g) (w : SpeedWeighting Exact) :
    NonnegWeights g w.toWeighting := by
  intro u v c hstep
  obtain ⟨d, hoff, -, -, hc⟩ := (edgeStep_iff hg).1 hstep
  exact w.edgeWeight_nonneg rfl (.inl (hd.view hoff.1)) hc

/-! ## §4. An open road. -/

/-- Two nodes and an open road of one metre between them. -/
noncomputable def openRoad : RoadGraph Exact :=
  RoadGraph.oneRoad (Point.flat 0 0) (Point.flat 0 1) [] 1 SpeedWeighting.openWord

theorem reachable_openRoad :
    Reachable openRoad SpeedWeighting.carWithoutTurns.toWeighting 0 1 := by
  have hoffers : openRoad.Offers RoadGraph.onlyRoad :=
    ⟨RoadGraph.hasDirection_onlyRoad _ _ _ _ _, fun _ => rfl⟩
  have hwell : openRoad.WellFormed := (RoadGraph.built_oneRoad _ _ _ _ _).wellFormed
  have hmem : openRoad.view RoadGraph.onlyRoad ∈ openRoad.edges 0 :=
    (RoadGraph.mem_edges hwell).2 ⟨_, hoffers, rfl, rfl⟩
  obtain ⟨hword, hdistance⟩ : (openRoad.view RoadGraph.onlyRoad).word = _ ∧ _ :=
    RoadGraph.view_onlyRoad _ _ _ _ _
  obtain ⟨x, hx⟩ := SpeedWeighting.isReal_edgeWeight_open hword
    (hdistance ▸ ⟨1, Exact.one_eq⟩) false
  exact (reachable_iff fun n v hv => (RoadGraph.adj_lt_of_mem_edges hwell hv).1).2
    ⟨x, .single ⟨_, hmem, rfl, hx⟩⟩

end RoadSplice

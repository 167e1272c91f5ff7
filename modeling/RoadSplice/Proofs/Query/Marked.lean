/-
  RoadSplice.Proofs.Query.Marked — what marks do to the ways of a query graph.

  A mark adds a penalty to the weight of the piece that bears it, and changes nothing else.  So a
  node offers the same edges whatever is marked, no weight becomes negative, and a finite penalty
  closes no edge: what can be reached without marks can be reached with any.
-/
import RoadSplice.Proofs.Query.Detours
import RoadSplice.Proofs.Query.Opened

namespace RoadSplice

open QueryGraph (ofOverlay marking)

/-! ## §1. Edges. -/

section

variable {K : Type} [Scalar K] {g : RoadGraph K} {o : Overlay K} {t : List Nat}

/-- A view with the mark of its piece. -/
def EdgeView.underMarks (m : Nat → Bool) (v : EdgeView K) : EdgeView K :=
  { v with unfavored := (v.piece.map m).getD v.unfavored }

omit [Scalar K] in
theorem QueryGraph.pieceView_underMarks (m : Nat → Bool) (i : Nat) :
    (marking g o m t).pieceView i = ((ofOverlay g o).pieceView i).map (·.underMarks m) := by
  show ((o.withMarks m).piece? i).map _ = ((o.piece? i).map _).map _
  rw [Overlay.piece?_withMarks]
  cases o.piece? i <;> rfl

/-- **A node offers the same edges** whatever is marked, each with its mark. -/
theorem QueryGraph.edges_marking (m : Nat → Bool) (n : NodeId) :
    (marking g o m t).edges n = ((ofOverlay g o).edges n).map (·.underMarks m) := by
  show (ofOverlay g (o.withMarks m)).edges n = _
  rw [edges_eq, edges_eq, List.map_append, List.map_filterMap]
  congr 1
  · exact List.filterMap_congr fun i _ => pieceView_underMarks (t := []) m i
  · -- Roads of the graph below bear no marks.
    have hroad : ∀ v ∈ g.edges n, v.underMarks m = v := by
      intro v hv
      obtain ⟨d, -, rfl⟩ := List.mem_map.1 hv
      rfl
    show (if o.isVirtualNode n then [] else (g.edges n).filter fun v => !o.hides n v.edge) = _
    split
    · rfl
    · refine ((List.map_congr_left fun v hv => ?_).trans (List.map_id _)).symm
      exact hroad v (List.mem_filter.1 hv).1

theorem QueryGraph.mem_edges_marking {m : Nat → Bool} {n : NodeId} {v : EdgeView K} :
    v ∈ (marking g o m t).edges n ↔ ∃ u ∈ (ofOverlay g o).edges n, u.underMarks m = v := by
  rw [edges_marking, List.mem_map]

end

/-! ## §2. Weights. -/

namespace SpeedWeighting

variable (w : SpeedWeighting Exact)

/-- **A finite penalty closes no edge** and opens none. -/
theorem isReal_edgeWeight_underMarks (hpenalty : w.config.headingPenalty.IsReal) (m : Nat → Bool)
    {v : EdgeView Exact} (hmark : v.unfavored = false) (r : Bool) :
    (w.edgeWeight (v.underMarks m) r).IsReal ↔ (w.edgeWeight v r).IsReal := by
  have hseconds : w.seconds? (v.underMarks m) r = w.seconds? v r := rfl
  unfold edgeWeight
  rw [hseconds, hmark]
  cases w.seconds? v r with
  | none => exact Iff.rfl
  | some x =>
    dsimp only
    split
    · rw [Exact.isReal_add]
      exact and_iff_left hpenalty
    · exact Iff.rfl

/-- A mark makes no weight negative. -/
theorem edgeWeight_underMarks_nonneg (hpenalty : 0 ≤ w.config.headingPenalty) (m : Nat → Bool)
    {v : EdgeView Exact} (hmark : v.unfavored = false) (hdistance : v.distance.Unsigned)
    {r : Bool} {c : ℝ} (hc : w.edgeWeight (v.underMarks m) r = .real c) : 0 ≤ c := by
  have hseconds : w.seconds? (v.underMarks m) r = w.seconds? v r := rfl
  unfold edgeWeight at hc
  rw [hseconds] at hc
  cases hx : w.seconds? v r with
  | none =>
    rw [hx] at hc
    cases hc
  | some x =>
    have hplain : w.edgeWeight v r = x := by
      unfold edgeWeight
      rw [hx, hmark]
      rfl
    simp only [hx] at hc
    split at hc
    · -- Weight and penalty are finite, and neither is negative.
      obtain ⟨⟨y, hy⟩, z, hz⟩ := (Exact.isReal_add _ _).1 ⟨c, hc⟩
      have hpos := w.edgeWeight_nonneg hmark hdistance (hplain.trans hy)
      rw [hz, Exact.zero_eq, Exact.real_le_real] at hpenalty
      rw [hy, hz, Exact.real_add] at hc
      exact Exact.real.inj hc ▸ add_nonneg hpos hpenalty
    · exact w.edgeWeight_nonneg hmark hdistance (hplain.trans hc)

end SpeedWeighting

/-! ## §3. Ways. -/

variable {g : RoadGraph Exact} {o : Overlay Exact} {cs : List (Chain Exact)}
  {w : SpeedWeighting Exact}

namespace Overlay.Measured

/-- **No edge has a negative weight**, whatever is marked. -/
theorem nonnegWeights_marking (h : Measured g o cs) (hpenalty : 0 ≤ w.config.headingPenalty)
    (m : Nat → Bool) (t : List Nat) :
    NonnegWeights (marking g o m t) (QueryGraph.wrap (o.withMarks m) w.toWeighting) := by
  rintro u v c ⟨e', he', -, hc⟩
  obtain ⟨e, he, rfl⟩ := QueryGraph.mem_edges_marking.1 he'
  have hquery := ((h.mem_edges h.wellFormed).1 he).1
  exact w.edgeWeight_underMarks_nonneg hpenalty m hquery.reads.2 (h.unsigned e hquery) hc

/-- **A step with marks is a step without**, at a weight of its own. -/
theorem exists_edgeStep_marking (h : Measured g o cs) (hpenalty : w.config.headingPenalty.IsReal)
    (m : Nat → Bool) (t : List Nat) {u v : NodeId} :
    (∃ c, EdgeStep (marking g o m t) (QueryGraph.wrap (o.withMarks m) w.toWeighting) u v c) ↔
      ∃ c, EdgeStep (ofOverlay g o) (QueryGraph.wrap o w.toWeighting) u v c := by
  have hopen : ∀ e ∈ (ofOverlay g o).edges u, ∀ r,
      (w.edgeWeight (e.underMarks m) r).IsReal ↔ (w.edgeWeight e r).IsReal := fun e he r =>
    w.isReal_edgeWeight_underMarks hpenalty m ((h.mem_edges h.wellFormed).1 he).1.reads.2 r
  constructor
  · rintro ⟨c, e', he', hadj, hc⟩
    obtain ⟨e, he, rfl⟩ := QueryGraph.mem_edges_marking.1 he'
    obtain ⟨c', hc'⟩ := (hopen e he false).1 ⟨c, hc⟩
    exact ⟨c', e, he, hadj, hc'⟩
  · rintro ⟨c, e, he, hadj, hc⟩
    obtain ⟨c', hc'⟩ := (hopen e he false).2 ⟨c, hc⟩
    exact ⟨c', e.underMarks m, QueryGraph.mem_edges_marking.2 ⟨e, he, rfl⟩, hadj, hc'⟩

/-- **Marks cut off no node**: what can be reached with marks is what can be reached without. -/
theorem reachable_marking (h : Measured g o cs) (hpenalty : w.config.headingPenalty.IsReal)
    (hopened : (ofOverlay g o).Sound) (m : Nat → Bool) (t : List Nat) {source target : NodeId} :
    Reachable (marking g o m t) (QueryGraph.wrap (o.withMarks m) w.toWeighting) source target ↔
      Reachable (ofOverlay g o) (QueryGraph.wrap o w.toWeighting) source target := by
  rw [reachable_iff (hopened.remarked m t).readable.base_eq, reachable_iff hopened.readable.base_eq]
  constructor
  · rintro ⟨x, hwalk⟩
    exact hwalk.recost fun hstep => (h.exists_edgeStep_marking hpenalty m t).1 ⟨_, hstep⟩
  · rintro ⟨x, hwalk⟩
    exact hwalk.recost fun hstep => (h.exists_edgeStep_marking hpenalty m t).2 ⟨_, hstep⟩

/-- **A search finds a path with marks** exactly when a walk of finite weight leads to the target
without. -/
theorem isSome_dijkstra_marking (h : Measured g o cs) (hpenalty : 0 ≤ w.config.headingPenalty)
    (hreal : w.config.headingPenalty.IsReal) (hturns : w.config.turnCosts = false)
    (hopened : (ofOverlay g o).Sound) (m : Nat → Bool) (t : List Nat) {source target : NodeId} :
    (dijkstra (marking g o m t) (QueryGraph.wrap (o.withMarks m) w.toWeighting) source
        target).isSome = true ↔
      Reachable (ofOverlay g o) (QueryGraph.wrap o w.toWeighting) source target := by
  have hfound := (dijkstra_shortestPath (hopened.remarked m t).readable
    (h.nonnegWeights_marking hpenalty m t) hturns source target).1
  rw [hfound]
  exact h.reachable_marking hreal hopened m t

end Overlay.Measured

end RoadSplice

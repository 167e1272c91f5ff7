/-
  RoadSplice.Proofs.Query.Shown — the views that a query graph shows.

  A view is obtained in many ways: at a node, by the number of an edge, from the list of marked
  pieces, in the query graph or in the road graph below it, and from another view by turning it
  round.  However it is obtained, it is the view of a road in one of its directions, or that of the
  piece at some place.
-/
import RoadSplice.Proofs.Flags.Values
import RoadSplice.Query.Heading

namespace RoadSplice.QueryGraph

variable {K : Type} [Scalar K] {q : QueryGraph K} {v : EdgeView K}

/-- **A view that a query graph shows.** -/
inductive Shows (q : QueryGraph K) : EdgeView K → Prop where
  | offered {n : NodeId} {v : EdgeView K} (h : v ∈ q.edges n) : Shows q v
  | found {e : EdgeId} {adj : Option NodeId} {v : EdgeView K} (h : q.edge e adj = .ok v) : Shows q v
  | offeredBelow {n : NodeId} {v : EdgeView K} (h : v ∈ q.base.edges n) : Shows q v
  | foundBelow {e : EdgeId} {adj : Option NodeId} {v : EdgeView K}
    (h : q.base.edge e adj = .ok v) : Shows q v
  | marked {v : EdgeView K} (h : v ∈ q.marked) : Shows q v
  | detached {v : EdgeView K} (h : Shows q v) : Shows q (q.detach v)

/-- A view of a road, or of a piece. -/
def Views (q : QueryGraph K) (v : EdgeView K) : Prop :=
  (∃ d, q.base.view d = v) ∨ ∃ i, q.pieceView i = some v

theorem views_of_mem_pieces {places : List Nat} (h : v ∈ places.filterMap q.pieceView) :
    q.Views v := by
  obtain ⟨i, -, hi⟩ := List.mem_filterMap.1 h
  exact .inr ⟨i, hi⟩

theorem views_of_mem_baseEdges {n : NodeId} (h : v ∈ q.base.edges n) : q.Views v := by
  obtain ⟨d, -, hd⟩ := List.mem_map.1 h
  exact .inl ⟨d, hd⟩

theorem views_of_baseEdge {e : EdgeId} {adj : Option NodeId} (h : q.base.edge e adj = .ok v) :
    q.Views v := by
  obtain ⟨d, -, hd⟩ := except_map.1 h
  exact .inl ⟨d, hd⟩

theorem views_of_mem_edges {n : NodeId} (h : v ∈ q.edges n) : q.Views v := by
  unfold edges at h
  split at h
  · exact views_of_mem_pieces h
  · split at h
    · exact views_of_mem_baseEdges h
    · rcases List.mem_append.1 h with h | h
      · exact views_of_mem_pieces h
      · exact views_of_mem_baseEdges (List.mem_filter.1 h).1

theorem views_of_edge {e : EdgeId} {adj : Option NodeId} (h : q.edge e adj = .ok v) :
    q.Views v := by
  have hpiece : ∀ i, q.pieceViewOrFail i = .ok v → q.Views v := by
    intro i hi
    unfold pieceViewOrFail at hi
    split at hi
    · obtain rfl := Except.ok.inj hi
      exact .inr ⟨i, ‹_›⟩
    · cases hi
  unfold edge at h
  split at h
  · exact views_of_baseEdge h
  · split at h
    · cases h
    · exact hpiece _ h
    · split at h
      · exact hpiece _ h
      · split at h
        · exact hpiece _ h
        · cases h

theorem Views.detach (h : q.Views v) : q.Views (q.detach v) := by
  unfold QueryGraph.detach
  split
  · exact .inl ⟨_, rfl⟩
  · -- A piece is detached to the piece paired with it.
    cases hpair : (q.overlay.piece? _).bind fun p => q.pieceView p.pair with
    | none => exact h
    | some u =>
      obtain ⟨p, -, hu⟩ := Option.bind_eq_some_iff.1 hpair
      exact .inr ⟨_, hu⟩

/-- **Whatever is shown** is the view of a road or of a piece. -/
theorem Shows.views (h : q.Shows v) : q.Views v := by
  induction h with
  | offered h => exact views_of_mem_edges h
  | found h => exact views_of_edge h
  | offeredBelow h => exact views_of_mem_baseEdges h
  | foundBelow h => exact views_of_baseEdge h
  | marked h => exact views_of_mem_pieces h
  | detached h ih => exact ih.detach

end RoadSplice.QueryGraph

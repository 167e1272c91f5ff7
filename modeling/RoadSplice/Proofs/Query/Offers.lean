/-
  RoadSplice.Proofs.Query.Offers — exactly what the nodes of a query graph offer.

  Membership says which edges a node offers, but not how often.  The pieces that a delta adds are
  named once each, and the roads that stay are those of the road graph in their order; so nothing
  is offered twice, and the two ends of a loop that has been cut are offered side by side.
-/
import RoadSplice.Proofs.Overlay.OneRoad
import RoadSplice.Proofs.Query.Edges

namespace RoadSplice

open Overlay

variable {K : Type}

/-! ## §1. The ends of chains. -/

/-- Whether an overlay has a virtual node on a road. -/
def Overlay.cuts (o : Overlay K) (e : EdgeId) : Bool := o.nodes.any (·.road == e)

namespace Chain

/-- The places of the pieces of a chain that begin at a real node. -/
def endPlaces (c : Chain K) (r : NodeId) : List Nat :=
  (if c.road.base = r then [c.place 0 false] else []) ++
    if c.road.adj = r then [c.place c.points.length true] else []

/-- **The end pieces of a chain at a real node**: the first part where its road begins, and the
last part, against the chain, where it ends. -/
def endViews (c : Chain K) (g : RoadGraph K) (r : NodeId) : List (EdgeView K) :=
  (if c.road.base = r then (c.parts[0]?.map (c.view g 0 · false)).toList else []) ++
    if c.road.adj = r then
      (c.parts[c.points.length]?.map (c.view g c.points.length · true)).toList
    else []

theorem mem_endPlaces {c : Chain K} {r : NodeId} {p : Nat} :
    p ∈ c.endPlaces r ↔ (c.road.base = r ∧ p = c.place 0 false) ∨
      (c.road.adj = r ∧ p = c.place c.points.length true) := by
  unfold endPlaces
  rw [List.mem_append]
  refine or_congr ?_ ?_
  · by_cases h : c.road.base = r <;> simp [h]
  · by_cases h : c.road.adj = r <;> simp [h]

theorem nodup_endPlaces (c : Chain K) (r : NodeId) : (c.endPlaces r).Nodup := by
  have hne : c.place 0 false ≠ c.place c.points.length true := fun heq =>
    Bool.false_ne_true (Chain.place_inj heq).2
  unfold endPlaces
  split <;> split <;> simp [hne]

end Chain

variable {g : RoadGraph K} {o : Overlay K} {cs : List (Chain K)} {c : Chain K}

namespace Overlay.Spliced

/-- **The roads that are cut are those of the chains.** -/
theorem cuts_iff (h : Spliced g o cs) {e : EdgeId} :
    o.cuts e = true ↔ ∃ c ∈ cs, c.road.edge = e := by
  unfold cuts
  rw [Array.any_eq_true]
  constructor
  · rintro ⟨m, hm, hroad⟩
    replace hm : o.nodes[m]? = some o.nodes[m] := Array.getElem?_eq_getElem hm
    generalize o.nodes[m] = x at hm hroad
    obtain ⟨c, hc, j, hj, rfl⟩ := h.laid.exists_node m (Array.getElem?_eq_some_iff.1 hm).1
    have hnode := (h.laid.carries c hc).node j _ (List.getElem?_eq_getElem hj)
    obtain rfl : x = ⟨c.points[j], c.road.edge⟩ := by simpa using hm.symm.trans hnode
    exact ⟨c, hc, by simpa using hroad⟩
  · rintro ⟨c, hc, rfl⟩
    have hpos := List.length_pos_iff.2 (h.laid.points_ne c hc)
    have hnode := (h.laid.carries c hc).node 0 _ (List.getElem?_eq_getElem hpos)
    obtain ⟨hlt, hread⟩ := Array.getElem?_eq_some_iff.1 hnode
    exact ⟨_, hlt, by rw [hread]; exact beq_self_eq_true _⟩

/-- The ends of chains at a node have different places. -/
theorem nodup_ends (h : Spliced g o cs) (r : NodeId) : (cs.flatMap (·.endPlaces r)).Nodup := by
  have hcs : cs.Nodup := List.Nodup.of_map _ h.distinct
  refine List.nodup_flatMap.2 ⟨fun c _ => c.nodup_endPlaces r, ?_⟩
  refine hcs.pairwise_of_forall_ne fun c hc c' hc' hne => ?_
  -- A place that two chains share would make them one chain.
  rw [Function.onFun, List.disjoint_left]
  intro p hp hp'
  have hpart : ∀ c ∈ cs, p ∈ c.endPlaces r → ∃ j part back, c.parts[j]? = some part ∧
      p = c.place j back := by
    intro c hc hp
    obtain ⟨-, rfl⟩ | ⟨-, rfl⟩ := Chain.mem_endPlaces.1 hp
    · obtain ⟨part, hpart⟩ := h.laid.exists_part hc (Nat.zero_le _)
      exact ⟨0, part, false, hpart, rfl⟩
    · obtain ⟨part, hpart⟩ := h.laid.exists_part hc (Nat.le_refl _)
      exact ⟨_, part, true, hpart, rfl⟩
  obtain ⟨j, part, back, hpart₁, heq⟩ := hpart c hc hp
  obtain ⟨j', part', back', hpart₂, heq'⟩ := hpart c' hc' hp'
  exact hne (h.laid.place_inj h.distinct hc hc' hpart₁ hpart₂ (heq.symm.trans heq')).1

/-- **The pieces of a real node are the ends of the chains there**, each once. -/
theorem placesAt_perm (h : Spliced g o cs) {r : NodeId} (hr : r < g.nodeCount) :
    (o.placesAt r).Perm (cs.flatMap (·.endPlaces r)) := by
  refine (List.perm_ext_iff_of_nodup (h.nodup_placesAt r) (h.nodup_ends r)).2 fun p => ?_
  rw [h.mem_placesAt_real (h.isVirtualNode_of_lt hr)]
  simp only [List.mem_flatMap, Chain.mem_endPlaces]
  exact Iff.rfl

variable [Scalar K]

omit [Scalar K] in
/-- The views at the end places of a chain. -/
theorem filterMap_endPlaces (h : Spliced g o cs) (hc : c ∈ cs) (r : NodeId) :
    (c.endPlaces r).filterMap (QueryGraph.ofOverlay g o).pieceView = c.endViews g r := by
  obtain ⟨first, hfirst⟩ := h.laid.exists_part hc (Nat.zero_le _)
  obtain ⟨last, hlast⟩ := h.laid.exists_part hc (Nat.le_refl _)
  unfold Chain.endPlaces Chain.endViews
  rw [List.filterMap_append, hfirst, hlast]
  congr 1
  · split
    · simp [h.pieceView_place hc hfirst]
    · rfl
  · split
    · simp [h.pieceView_place hc hlast]
    · rfl

omit [Scalar K] in
/-- A chain has one end piece for each of its ends at a node. -/
theorem length_endViews (h : Spliced g o cs) (hc : c ∈ cs) (r : NodeId) :
    (c.endViews g r).length =
      (if c.road.base = r then 1 else 0) + if c.road.adj = r then 1 else 0 := by
  obtain ⟨first, hfirst⟩ := h.laid.exists_part hc (Nat.zero_le _)
  obtain ⟨last, hlast⟩ := h.laid.exists_part hc (Nat.le_refl _)
  unfold Chain.endViews
  rw [List.length_append, hfirst, hlast]
  congr 1 <;> split <;> rfl

/-- **What a real node offers**: the ends of the chains there, and in their order the roads that
are not cut. -/
theorem edges_perm (h : Spliced g o cs) (hg : g.WellFormed) {r : NodeId} (hr : r < g.nodeCount) :
    ((QueryGraph.ofOverlay g o).edges r).Perm
      (cs.flatMap (·.endViews g r) ++ (g.edges r).filter fun v => !o.cuts v.edge) := by
  have hreal := h.isVirtualNode_of_lt hr
  have hviews : (cs.flatMap (·.endPlaces r)).filterMap (QueryGraph.ofOverlay g o).pieceView =
      cs.flatMap (·.endViews g r) := by
    rw [List.filterMap_flatMap]
    exact List.flatMap_congr fun c hc => h.filterMap_endPlaces hc r
  -- At a node where a road begins, it is hidden exactly when it is cut.
  have hroads : (g.edges r).filter (fun v => !o.hides r v.edge) =
      (g.edges r).filter fun v => !o.cuts v.edge := by
    refine List.filter_congr fun v hv => ?_
    obtain ⟨d, hd, rfl, rfl⟩ := (RoadGraph.mem_edges hg).1 hv
    have hsame : o.hides d.base d.edge = o.cuts d.edge :=
      Bool.eq_iff_iff.2 ((h.hides_base hd.1).trans h.cuts_iff.symm)
    show (!o.hides d.base d.edge) = !o.cuts d.edge
    rw [hsame]
  rw [QueryGraph.edges_eq, if_neg (by simp [hreal]), hroads, ← hviews]
  exact ((h.placesAt_perm hr).filterMap _).append_right _

/-- Nothing that is offered is a road that has been cut. -/
theorem cuts_of_mem_edges (h : Spliced g o cs) (hg : g.WellFormed) {n : NodeId} {v : EdgeView K}
    (hv : v ∈ (QueryGraph.ofOverlay g o).edges n) : o.cuts v.edge = false := by
  rw [← Bool.not_eq_true, h.cuts_iff]
  rintro ⟨c, hc, hedge⟩
  obtain ⟨⟨c', hc', j, part, back, hpart, rfl⟩ | ⟨d, -, huncut, rfl⟩, -⟩ := (h.mem_edges hg).1 hv
  · -- The id of a piece is no number of a road.
    have hindex := h.index?_view hc' hpart back
    rw [← hedge, h.index?_road (h.direction c hc)] at hindex
    cases hindex
  · exact huncut c hc hedge

omit [Scalar K] in
/-- Every node is real or on a chain. -/
theorem real_or_virtual (h : Spliced g o cs) {n : NodeId}
    (hn : n < (QueryGraph.ofOverlay g o).nodeCount) :
    n < g.nodeCount ∨ ∃ c ∈ cs, ∃ i, i < c.points.length ∧ n = c.along g (i + 1) := by
  cases hvirtual : o.isVirtualNode n with
  | true =>
    obtain ⟨c, hc, i, hi, rfl⟩ := h.laid.exists_of_isVirtualNode hvirtual
    rw [h.firstNode_eq]
    exact .inr ⟨c, hc, i, hi, rfl⟩
  | false =>
    rw [← h.firstNode_eq]
    refine .inl (lt_of_not_isVirtualNode ?_ hvirtual)
    rw [h.firstNode_eq]
    exact hn

end Overlay.Spliced

/-! ## §2. All nodes. -/

variable [Scalar K]

/-- **What the nodes of a query graph offer**, for an overlay that is made of some chains. -/
structure OffersExactly (g : RoadGraph K) (o : Overlay K) (cs : List (Chain K)) : Prop where
  chains : Spliced g o cs
  /-- Each road that is cut has one chain, and no other road has one. -/
  cuts_iff : ∀ e, o.cuts e = true ↔ ∃ c ∈ cs, c.road.edge = e
  distinct : (cs.map (·.road.edge)).Nodup
  nodes : ∀ n, n < (QueryGraph.ofOverlay g o).nodeCount →
    n < g.nodeCount ∨ ∃ c ∈ cs, ∃ i, i < c.points.length ∧ n = c.along g (i + 1)
  /-- The graph itself offers every road once at each of its nodes. -/
  roads_once : ∀ r, ((g.edges r).map (·.edge)).Nodup ∧
    ∀ e, e ∈ (g.edges r).map (·.edge) ↔ g.Touches e r
  real : ∀ r, r < g.nodeCount → ((QueryGraph.ofOverlay g o).edges r).Perm
    (cs.flatMap (·.endViews g r) ++ (g.edges r).filter fun v => !o.cuts v.edge)
  /-- One end piece at each end of a chain: two where its road is a loop. -/
  ends : ∀ c ∈ cs, ∀ r, (c.endViews g r).length =
    (if c.road.base = r then 1 else 0) + if c.road.adj = r then 1 else 0
  virtual : ∀ c ∈ cs, ∀ i, i < c.points.length → ∃ u v,
    (QueryGraph.ofOverlay g o).edges (c.along g (i + 1)) = [u, v] ∧
      u.road = c.road.edge ∧ u.adj = c.along g i ∧
      v.road = c.road.edge ∧ v.adj = c.along g (i + 2)
  base_eq : ∀ n, ∀ v ∈ (QueryGraph.ofOverlay g o).edges n, v.base = n
  never_cut : ∀ n, ∀ v ∈ (QueryGraph.ofOverlay g o).edges n, o.cuts v.edge = false

/-- **No tunnelling, no loss, no duplication**: the query graph over a built overlay offers at each
node exactly what the chains and the roads that are not cut give it. -/
theorem overlay_offers_exactly (hg : g.Built) {snaps final : Array (Snap K)}
    (hsnaps : Splicing.OnRoads g snaps) (hbuild : Overlay.build g snaps = (.ok o, final)) :
    ∃ cs, OffersExactly g o cs := by
  have hwf := hg.wellFormed
  obtain ⟨cs, h, -⟩ := Overlay.spliced_of_build hwf hsnaps hbuild
  refine ⟨cs, h, fun _ => h.cuts_iff, h.distinct, fun _ => h.real_or_virtual, fun r => ?_,
    fun _ => h.edges_perm hwf, fun _ hc => h.length_endViews hc, fun c hc i hi => ?_,
    fun n v hv => ((h.mem_edges hwf).1 hv).2, fun n v => h.cuts_of_mem_edges hwf⟩
  · rw [RoadGraph.edges_map_edge hwf]
    exact ⟨hwf.nodup r, fun e => hwf.mem_incidentAt r e⟩
  · obtain ⟨part, hpart⟩ := h.laid.exists_part hc (Nat.le_of_lt hi)
    obtain ⟨part', hpart'⟩ := h.laid.exists_part hc (Nat.succ_le_of_lt hi)
    exact ⟨_, _, h.edges_virtual hc hpart hpart', rfl, rfl, rfl, rfl⟩

/-- What the nodes of a road that is cut twice offer. -/
theorem overlay_offers_exactly_cutRoad :
    ∃ (o : Overlay Exact) (final : Array (Snap Exact)) (cs : List (Chain Exact)),
      ((Splicing.cutRoad 0).Built ∧ Splicing.OnRoads (Splicing.cutRoad 0) Splicing.cutSnaps ∧
        Overlay.build (Splicing.cutRoad 0) Splicing.cutSnaps = (.ok o, final)) ∧
      o.cuts 0 = true ∧ OffersExactly (Splicing.cutRoad 0) o cs := by
  have hbuilt := Splicing.built_cutRoad 0
  have hsnaps := Splicing.onRoads_cutRoad 0
  obtain ⟨o, final, hbuild, h⟩ := Splicing.build_cutRoad 0
  obtain ⟨cs, hcs⟩ := overlay_offers_exactly hbuilt hsnaps hbuild
  exact ⟨o, final, cs, ⟨hbuilt, hsnaps, hbuild⟩,
    h.cuts_iff.2 ⟨_, List.mem_singleton.2 rfl, rfl⟩, hcs⟩

end RoadSplice

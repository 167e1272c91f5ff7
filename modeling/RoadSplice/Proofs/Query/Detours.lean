/-
  RoadSplice.Proofs.Query.Detours — walks of a query graph cost no less than walks of the graph.

  Turning round at a virtual node only leads back to where the walk was before, so it can be cut
  out.  A walk between real nodes without such detours consists of whole rows, and these cost as
  much as their roads.
-/
import RoadSplice.Proofs.Hierarchy.Roads
import RoadSplice.Proofs.Overlay.Build
import RoadSplice.Proofs.Query.Walks

namespace RoadSplice

open Overlay

/-! ## §1. Lengths of pieces. -/

/-- A length is at least zero, where it is a number at all. -/
theorem Geo.lengthOf_unsigned (s : Polyline Exact) : Exact.Unsigned (Geo.lengthOf s) := by
  have hlevel : ∀ a b c d : Exact, Exact.Unsigned (Geo.planeDistance a b c d) := fun a b c d => by
    have hsqrt := Exact.Unsigned.sqrt (Geo.planeNormalizedDistance a b c d)
    unfold Geo.planeDistance Geo.planeRadius
    rw [Exact.ofNat_eq]
    exact hsqrt.real_mul (by positivity)
  have hsegment : ∀ a b : Point Exact, Exact.Unsigned (if s.is3d then Geo.planeDistance3d a b
      else Geo.planeDistance a.lat a.lon b.lat b.lon) := fun a b => by
    unfold Geo.planeDistance3d
    split
    · split
      · exact Exact.Unsigned.sqrt _
      · exact hlevel _ _ _ _
    · exact hlevel _ _ _ _
  unfold Geo.lengthOf
  exact List.foldlRecOn (motive := Exact.Unsigned) _ _ (.inl (by simp)) fun x hx ab _ =>
    hx.add (hsegment ab.1 ab.2)

/-- The parts of a chain are measured along their shapes. -/
theorem Splicing.Threads.measured {K : Type} [Scalar K] {g : RoadGraph K}
    {snaps final : Array (Snap K)} {n : NodeId} {c : Chain K} {shape : Polyline K}
    {start last : Point K} {ss : List (Snap K)}
    (h : Splicing.Threads g snaps final n c shape start last ss) {part : Part K}
    (hpart : part ∈ c.parts) : part.distance = Geo.lengthOf part.shape := by
  have hstops : ∀ (ss : List (Snap K)) (a : Splicing.Anchor K) (n : NodeId),
      ∀ st ∈ Splicing.stopsFrom shape a n ss, st.part.distance = Geo.lengthOf st.part.shape := by
    intro ss
    induction ss with
    | nil => simp [Splicing.stopsFrom]
    | cons s ss ih =>
      intro a n st hst
      unfold Splicing.stopsFrom at hst
      split at hst
      · exact ih a n st hst
      · obtain rfl | hst := List.mem_cons.1 hst
        · rfl
        · exact ih _ _ st hst
  rw [h.parts_eq] at hpart
  obtain hpart | hpart := List.mem_append.1 hpart
  · obtain ⟨st, hst, rfl⟩ := List.mem_map.1 hpart
    exact hstops ss _ _ st hst
  · rw [List.mem_singleton.1 hpart]
    rfl

/-- **A built overlay whose pieces are measured**: no edge has a negative distance. -/
structure Overlay.Measured (g : RoadGraph Exact) (o : Overlay Exact) (cs : List (Chain Exact)) :
    Prop extends Spliced g o cs where
  wellFormed : g.WellFormed
  roads : NonnegDistances g
  unsigned : ∀ v, QueryEdge g cs v → v.distance.Unsigned

/-- The same, with pieces that add up to their roads. -/
structure Overlay.Additive (g : RoadGraph Exact) (o : Overlay Exact) (cs : List (Chain Exact)) :
    Prop extends Measured g o cs where
  sum : DistancesAddUp g o

variable {g : RoadGraph Exact} {o : Overlay Exact} {cs : List (Chain Exact)}
  {w : SpeedWeighting Exact} {s t : NodeId} {vs : List (EdgeView Exact)}

/-- **Pieces of roads of no negative length** have no negative length. -/
theorem Overlay.measured_of_build (hg : g.WellFormed) {snaps final : Array (Snap Exact)}
    (hsnaps : Splicing.OnRoads g snaps) (hbuild : Overlay.build g snaps = (.ok o, final))
    (hd : NonnegDistances g) : ∃ cs, Measured g o cs := by
  obtain ⟨cs, h, hthreads⟩ := Overlay.spliced_of_build hg hsnaps hbuild
  refine ⟨cs, h, hg, hd, fun v hv => ?_⟩
  obtain ⟨c, hc, j, part, back, hpart, rfl⟩ | ⟨d, hoff, -, rfl⟩ := hv
  · obtain ⟨shape, start, last, ss, ht⟩ := hthreads c hc
    show part.distance.Unsigned
    rw [ht.measured (List.mem_of_getElem? hpart)]
    exact Geo.lengthOf_unsigned _
  · exact .inl (hd.view hoff.1)

namespace Overlay.Measured

/-- No edge of the query graph has a negative weight. -/
theorem weight_nonneg (h : Measured g o cs) {v : EdgeView Exact} (hv : QueryEdge g cs v)
    {r : Bool} {c : ℝ} (hc : w.edgeWeight v r = .real c) : 0 ≤ c :=
  w.edgeWeight_nonneg hv.reads.2 (h.unsigned v hv) hc

theorem nonnegWeights (h : Measured g o cs) (w : SpeedWeighting Exact) :
    NonnegWeights (QueryGraph.ofOverlay g o) (QueryGraph.wrap o w.toWeighting) := by
  rintro u v c ⟨e, he, -, hc⟩
  exact h.weight_nonneg ((h.mem_edges h.wellFormed).1 he).1 hc

end Overlay.Measured

/-- **From node to node along a chain**: over a part of finite length of an open road a car passes
in finite time, in either direction. -/
theorem Overlay.Spliced.exists_edgeStep (h : Spliced g o cs) (hg : g.WellFormed)
    (hcar : w.encoding = SpeedWeighting.carWithoutTurns.encoding)
    (hpenalty : w.config.headingPenalty.IsReal) {c : Chain Exact} (hc : c ∈ cs)
    (hword : g.word c.road.edge = BitVec.ofNat 64 SpeedWeighting.openWord) {j : Nat}
    {part : Part Exact} (hpart : c.parts[j]? = some part) (hdistance : part.distance.IsReal)
    (back : Bool) :
    ∃ x, EdgeStep (QueryGraph.ofOverlay g o) (QueryGraph.wrap o w.toWeighting)
      (c.along g (if back then j + 1 else j)) (c.along g (if back then j else j + 1)) x := by
  have hmem := (h.mem_edges hg).2 ⟨.inl ⟨c, hc, j, part, back, hpart, rfl⟩, rfl⟩
  obtain ⟨x, hx⟩ := w.isReal_edgeWeight_of_open hcar hpenalty (v := c.view g j part back) hword
    hdistance false
  exact ⟨x, _, hmem, rfl, hx⟩

/-! ## §2. Cutting out detours. -/

/-- **Turning round** at a virtual node leads back to where the walk was before. -/
theorem Overlay.Spliced.adj_of_turn (h : Spliced g o cs) (hg : g.WellFormed)
    {v v' : EdgeView Exact} (hv : QueryEdge g cs v) (hv' : QueryEdge g cs v')
    (hjoin : v'.base = v.adj) (hvirtual : o.isVirtualNode v.adj = true)
    (hturn : o.isUTurn v.edge v'.edge = true) : v'.adj = v.base := by
  obtain ⟨c, hc, j, part, back, hpart, rfl⟩ | ⟨d, hd, -, rfl⟩ := hv
  · obtain ⟨c', hc', j', part', back', hpart', rfl⟩ | ⟨d, hd, -, rfl⟩ := hv'
    · have hadj : (c.view g j part back).adj = (c.view g j part (!back)).base := by
        cases back <;> rfl
      -- Both parts touch the same virtual node, so they lie on one chain.
      obtain ⟨i, hi, hbase⟩ := h.base_virtual hg hc hpart (!back) (hadj ▸ hvirtual)
      obtain ⟨i', hi', hbase'⟩ := h.base_virtual hg hc' hpart' back' (hjoin ▸ hvirtual)
      obtain ⟨rfl, -⟩ := h.along_inj hc hc' hi hi'
        (hbase.symm.trans (hadj.symm.trans (hjoin.symm.trans hbase')))
      obtain rfl : j = j' := (h.isUTurn_view hc hpart hpart' back back').1 hturn
      obtain rfl : part = part' := by simpa using hpart.symm.trans hpart'
      cases back <;> cases back'
      · exact hjoin.symm
      · rfl
      · rfl
      · exact hjoin.symm
    · have hreal := h.isVirtualNode_of_lt (hg.touches_lt hd.1.touches.1)
      rw [← hjoin] at hvirtual
      have hvirtual : o.isVirtualNode d.base = true := hvirtual
      simp [hvirtual] at hreal
  · have hreal := h.isVirtualNode_of_lt (hg.touches_lt hd.1.touches.2)
    have hvirtual : o.isVirtualNode d.adj = true := hvirtual
    simp [hvirtual] at hreal

/-- **Cutting out all turns round**: what is left of a walk leads between the same nodes. -/
theorem Overlay.Spliced.exists_noTurnRound (h : Spliced g o cs) (hg : g.WellFormed)
    (hjoined : Joined (·.base) (·.adj) s vs t) (hvs : ∀ v ∈ vs, QueryEdge g cs v) :
    ∃ us, us.Sublist vs ∧ Joined (·.base) (·.adj) s us t ∧ NoTurnRound o us := by
  induction vs generalizing s with
  | nil => exact ⟨[], .slnil, hjoined, .nil⟩
  | cons v vs ih =>
    obtain ⟨rfl, hjoined⟩ := hjoined
    obtain ⟨us, hsub, hus, hturns⟩ := ih hjoined fun u hu => hvs u (by simp [hu])
    by_cases hdetour : ∃ v' rest, us = v' :: rest ∧ o.isVirtualNode v.adj = true ∧
        o.isUTurn v.edge v'.edge = true
    · -- The edge and the one behind it cancel.
      obtain ⟨v', rest, rfl, hvirtual, hturn⟩ := hdetour
      obtain ⟨hbase, hrest⟩ := hus
      have hback : v'.adj = v.base := h.adj_of_turn hg (hvs v (by simp))
        (hvs v' (List.mem_cons_of_mem _ (hsub.subset (by simp)))) hbase hvirtual hturn
      have hrest' : Joined (·.base) (·.adj) v'.adj rest t := hrest
      refine ⟨rest, ((List.sublist_cons_self v' rest).trans hsub).cons v, ?_, ?_⟩
      · rwa [hback] at hrest'
      · exact hturns.suffix (List.suffix_cons v' rest)
    · refine ⟨v :: us, hsub.cons_cons v, ⟨rfl, hus⟩, List.isChain_cons.2 ⟨fun v' hv' hvirtual => ?_,
        hturns⟩⟩
      obtain ⟨rest, rfl⟩ := List.head?_eq_some_iff.1 hv'
      rw [← Bool.not_eq_true]
      exact fun hturn => hdetour ⟨v', rest, rfl, hvirtual, hturn⟩

/-! ## §3. Costs. -/

namespace Overlay.Additive

/-- The row of pieces for which a road stands, as one step. -/
def RowStep (g : RoadGraph Exact) (o : Overlay Exact) (cs : List (Chain Exact))
    (w : SpeedWeighting Exact) (u v : NodeId) (c : ℝ) : Prop :=
  ∃ d, g.HasDirection d ∧ Runs g o cs d ((QueryGraph.ofOverlay g o).expand (g.view d)) ∧
    d.base = u ∧ d.adj = v ∧ walkWeight (QueryGraph.wrap o w.toWeighting)
      ((QueryGraph.ofOverlay g o).expand (g.view d)) = .real c

/-- The edges of a walk of finite weight cost something that is not negative. -/
theorem exists_cost (h : Additive g o cs) {x : ℝ} (hvs : ∀ v ∈ vs, QueryEdge g cs v)
    (hx : walkWeight (QueryGraph.wrap o w.toWeighting) vs = .real x) :
    ∀ a ∈ vs.map (w.edgeWeight · false), ∃ c, a = .real c ∧ 0 ≤ c := by
  intro a ha
  obtain ⟨c, rfl⟩ := (Exact.isReal_total _).1 ⟨x, hx⟩ a ha
  obtain ⟨v, hv, hc⟩ := List.mem_map.1 ha
  exact ⟨c, rfl, h.weight_nonneg (hvs v hv) hc⟩

/-- **A row costs as much as its road**; the row of a loop can be left out. -/
theorem walk_of_rowStep (h : Additive g o cs) {u v : NodeId} {c : ℝ}
    (hstep : RowStep g o cs w u v c) :
    ∃ y, Walk (EdgeStep g w.toWeighting) u v y ∧ y ≤ c := by
  obtain ⟨d, hd, hruns, rfl, rfl, hc⟩ := hstep
  by_cases hloop : d.base = d.adj
  · obtain ⟨x, y, hx, hy, hle⟩ := Exact.total_le_of_sublist (List.nil_sublist _)
      (h.exists_cost hruns.edges hc)
    obtain rfl : y = c := by simpa [walkWeight] using hy.symm.trans hc
    obtain rfl : 0 = x := by simpa using hx
    rw [← hloop]
    exact ⟨0, .nil _, hle⟩
  · have hoff := hd.offers hloop
    have hweight := Spliced.weight_runs (w := w) (h.sum d hoff) hruns
    exact ⟨c, .single ⟨g.view d, (RoadGraph.mem_edges h.wellFormed).2 ⟨d, hoff, rfl, rfl⟩, rfl,
      hweight.symm.trans hc⟩, le_rfl⟩

/-- **Walks between real nodes** cost no less than walks of the graph. -/
theorem exists_walk (h : Additive g o cs) {x : ℝ}
    (hw : Walk (EdgeStep (QueryGraph.ofOverlay g o) (QueryGraph.wrap o w.toWeighting)) s t x)
    (hs : s < g.nodeCount) (ht : t < g.nodeCount) :
    ∃ y, Walk (EdgeStep g w.toWeighting) s t y ∧ y ≤ x := by
  have hg := h.wellFormed
  obtain ⟨vs, hvs, hx⟩ := (walk_iff_isWalk fun _ _ hv => ((h.mem_edges hg).1 hv).2).1 hw
  have hquery : ∀ v ∈ vs, QueryEdge g cs v := fun v hv => ((h.mem_edges hg).1 (hvs.2 v hv)).1
  -- Turning round at virtual nodes is cut out, which only saves weight.
  obtain ⟨us, hsub, hus, hturns⟩ := h.exists_noTurnRound hg hvs.1 hquery
  obtain ⟨y, x', hy, hx', hle⟩ := Exact.total_le_of_sublist (hsub.map (w.edgeWeight · false))
    (h.exists_cost hquery hx)
  obtain rfl : x' = x := by simpa [walkWeight] using hx'.symm.trans hx
  -- What is left consists of whole rows, one for each road.
  obtain ⟨ds, hds, hall, rfl⟩ := h.exists_directions hg hus (fun u hu => hquery u (hsub.subset hu))
    hturns (h.isVirtualNode_of_lt hs) (h.isVirtualNode_of_lt ht)
  have htotal : total (ds.map fun d => walkWeight (QueryGraph.wrap o w.toWeighting)
      ((QueryGraph.ofOverlay g o).expand (g.view d))) = .real y := by
    rw [← hy, List.map_flatMap, List.flatMap_def, Exact.total_flatten, List.map_map]
    rfl
  have hrows : Walk (RowStep g o cs w) s t y := Walk.of_total htotal hds fun d hd c hc =>
    ⟨d, (hall d hd).1, (hall d hd).2, rfl, rfl, hc⟩
  obtain ⟨z, hz, hle'⟩ := hrows.dominated h.walk_of_rowStep
  exact ⟨z, hz, hle'.trans hle⟩

/-- **A road is a walk of the query graph** at the same cost. -/
theorem walk_of_edgeStep (h : Additive g o cs) {u v : NodeId} {c : ℝ}
    (hstep : EdgeStep g w.toWeighting u v c) :
    Walk (EdgeStep (QueryGraph.ofOverlay g o) (QueryGraph.wrap o w.toWeighting)) u v c := by
  have hg := h.wellFormed
  obtain ⟨d, hoff, rfl, rfl, hc⟩ := (edgeStep_iff hg).1 hstep
  have hruns := h.runs_of_offers hg hoff
  refine (walk_iff_isWalk fun _ _ hv => ((h.mem_edges hg).1 hv).2).2 ⟨_, ⟨hruns.joined, fun v hv =>
    (h.mem_edges hg).2 ⟨hruns.edges v hv, rfl⟩⟩, ?_⟩
  exact (Spliced.weight_runs (h.sum d hoff) hruns).trans hc

end Overlay.Additive

end RoadSplice

/-
  RoadSplice.Proofs.Hierarchy.ViewEdges — the edges of a view, and what its paths are made of.

  A node of a view offers its pieces and the edges of the hierarchy that it does not hide.  Shortcuts
  are never hidden, although the roads beneath them may be cut; and a piece that the backward side
  of a search has taken keeps its id when it is turned round, while the query graph has another id
  for that direction.  So a path on a view may name roads that are cut, and pieces by the ids of
  their opposites, but nothing else that the query graph does not offer.
-/
import RoadSplice.Hierarchy.View
import RoadSplice.Proofs.Hierarchy.Hops
import RoadSplice.Proofs.Hierarchy.Shortest
import RoadSplice.Proofs.Query.Detours
import RoadSplice.Proofs.Query.Offers

namespace RoadSplice

open HierarchyEdge RoutingHierarchy Overlay

/-! ## §1. Making a view. -/

/-- The view of a hierarchy through an overlay. -/
noncomputable def HierarchyView.over (g : RoadGraph Exact) (o : Overlay Exact)
    (w : Weighting Exact) (h : Hierarchy Exact) : HierarchyView Exact :=
  ⟨h.routing, QueryGraph.ofOverlay g o, QueryGraph.wrap o w, h.edgeCount - g.edgeCount,
    (((List.range o.pieces.size).filterMap (QueryGraph.ofOverlay g o).pieceView).map
      (HierarchyView.pieceEdge (QueryGraph.wrap o w) (h.edgeCount - g.edgeCount))).toArray⟩

/-- A piece as an edge of the view. -/
noncomputable def pieceOf (g : RoadGraph Exact) (w : SpeedWeighting Exact) (h : Hierarchy Exact)
    (v : EdgeView Exact) : HierarchyEdge Exact :=
  HierarchyView.pieceEdge w.toWeighting (h.edgeCount - g.edgeCount) v

variable {g : RoadGraph Exact} {o : Overlay Exact} {cs : List (Chain Exact)}
  {w : SpeedWeighting Exact} {h : Hierarchy Exact} {s t : NodeId}

/-- The results of a function that has one for each number of a range. -/
theorem getElem?_filterMap_range {α : Type} {f : Nat → Option α} {n : Nat}
    (h : ∀ i, i < n → (f i).isSome = true) :
    ((List.range n).filterMap f).length = n ∧
      ∀ i, i < n → ((List.range n).filterMap f)[i]? = f i := by
  induction n with
  | zero => simp
  | succ n ih =>
    obtain ⟨hlength, hread⟩ := ih fun i hi => h i (Nat.lt_succ_of_lt hi)
    obtain ⟨y, hy⟩ := Option.isSome_iff_exists.1 (h n (Nat.lt_succ_self n))
    rw [List.range_succ, List.filterMap_append, show [n].filterMap f = [y] by simp [hy]]
    refine ⟨by simp [hlength], fun i hi => ?_⟩
    obtain hi | rfl := Nat.lt_succ_iff_lt_or_eq.1 hi
    · rw [List.getElem?_append_left (by omega), hread i hi]
    · rw [List.getElem?_append_right (by omega), hlength, hy]
      simp

/-- A hierarchy has an edge for each road. -/
theorem Contracted.edgeCount_le (hc : Contracted g w.toWeighting h) :
    g.edgeCount ≤ h.edgeCount := by
  simpa [roadTable, RoadGraph.edgeCount, Hierarchy.edgeCount] using hc.grown.size_le

/-- **A view can be made** where the ids fit. -/
theorem HierarchyView.make_eq (hc : Contracted g w.toWeighting h)
    (hlimit : h.edgeCount + o.edgeCount ≤ HierarchyView.edgeLimit) :
    HierarchyView.make h.routing (QueryGraph.ofOverlay g o) w.toWeighting =
      .ok (HierarchyView.over g o w.toWeighting h) :=
  if_neg (not_or.2 ⟨Nat.not_lt.2 hlimit, Nat.not_lt.2 hc.edgeCount_le⟩)

/-- The pieces of an overlay, made into other things, lie at their places. -/
theorem QueryGraph.getElem?_pieces {K α : Type} [Scalar K] (q : QueryGraph K) (f : EdgeView K → α)
    (i : Nat) :
    (((List.range q.overlay.pieces.size).filterMap q.pieceView).map f).toArray[i]? =
      (q.pieceView i).map f := by
  have hsome : ∀ i, (q.pieceView i).isSome = true ↔ i < q.overlay.pieces.size := by
    simp [QueryGraph.pieceView, Overlay.view, Overlay.piece?]
  obtain ⟨hlength, hread⟩ := getElem?_filterMap_range (n := q.overlay.pieces.size)
    (f := q.pieceView) fun i hi => (hsome i).2 hi
  rw [List.getElem?_toArray, List.getElem?_map]
  by_cases hi : i < q.overlay.pieces.size
  · rw [hread i hi]
  · have hnone : q.pieceView i = none := by
      simpa [hi] using hsome i
    rw [hnone, List.getElem?_eq_none (by omega)]

/-- The pieces of a view lie at the places of the overlay. -/
theorem HierarchyView.pieces_over (i : Nat) :
    (HierarchyView.over g o w.toWeighting h).pieces[i]? =
      ((QueryGraph.ofOverlay g o).pieceView i).map (pieceOf g w h) :=
  (QueryGraph.ofOverlay g o).getElem?_pieces _ i

/-! ## §2. The edges of a view. -/

/-- A node of a view has its pieces, and a real one also the edges that it does not hide. -/
theorem HierarchyView.edgesAt_eq {K : Type} [Scalar K] (v : HierarchyView K) (forward : Bool)
    (below : NodeId → List (HierarchyEdge K)) (n : NodeId) :
    v.edgesAt forward below n = v.openPieces forward (v.query.overlay.placesAt n) ++
      if v.query.overlay.isVirtualNode n then []
      else (below n).filter fun e => e.underlying.all fun r => !v.query.overlay.hides n r := by
  unfold HierarchyView.edgesAt Overlay.placesAt Overlay.hides
  dsimp only
  cases v.query.overlay.isVirtualNode n with
  | true => simp
  | false =>
    cases v.query.overlay.delta? n with
    | none => simp [HierarchyView.openPieces]
    | some d => simp

/-- **What a side of the search follows**: open pieces, and edges of the hierarchy that are not
hidden. -/
theorem mem_sideEdges_over (hm : Measured g o cs) {forward : Bool} {n : NodeId}
    {e : HierarchyEdge Exact} :
    e ∈ (HierarchyView.over g o w.toWeighting h).routing.sideEdges forward n ↔
      (∃ v, PieceView g cs v ∧ v.base = n ∧ e = pieceOf g w h v ∧ (e.cost forward).IsReal) ∨
        (o.isVirtualNode n = false ∧ e ∈ h.routing.sideEdges forward n ∧
          ∀ r, e.underlying = some r → o.hides n r = false) := by
  have hside : (HierarchyView.over g o w.toWeighting h).routing.sideEdges forward n =
      (HierarchyView.over g o w.toWeighting h).edgesAt forward (h.routing.sideEdges forward) n := by
    cases forward <;> rfl
  have hpieces : e ∈ (HierarchyView.over g o w.toWeighting h).openPieces forward (o.placesAt n) ↔
      ∃ v, PieceView g cs v ∧ v.base = n ∧ e = pieceOf g w h v ∧ (e.cost forward).IsReal := by
    unfold HierarchyView.openPieces
    rw [List.mem_filter, List.mem_filterMap, Exact.isFinite_iff]
    constructor
    · rintro ⟨⟨p, hp, he⟩, hfin⟩
      obtain ⟨c, hc, j, part, back, hpart, rfl, rfl⟩ := (hm.mem_placesAt hm.wellFormed).1 hp
      rw [HierarchyView.pieces_over, hm.pieceView_place hc hpart back] at he
      obtain rfl : pieceOf g w h (c.view g j part back) = e := by simpa using he
      exact ⟨_, ⟨c, hc, j, part, back, hpart, rfl⟩, rfl, rfl, hfin⟩
    · rintro ⟨_, ⟨c, hc, j, part, back, hpart, rfl⟩, rfl, rfl, hfin⟩
      refine ⟨⟨c.place j back, (hm.mem_placesAt hm.wellFormed).2
        ⟨c, hc, j, part, back, hpart, rfl, rfl⟩, ?_⟩, hfin⟩
      rw [HierarchyView.pieces_over, hm.pieceView_place hc hpart back]
      rfl
  rw [hside, HierarchyView.edgesAt_eq, List.mem_append,
    show (HierarchyView.over g o w.toWeighting h).query.overlay = o from rfl, hpieces]
  refine or_congr_right ?_
  cases o.isVirtualNode n with
  | true => simp
  | false =>
    simp only [Bool.false_eq_true, ↓reduceIte, List.mem_filter, true_and]
    refine and_congr_right fun _ => ?_
    cases e.underlying <;> simp

/-- Levels of real nodes are no higher than those of virtual nodes. -/
theorem level_le_topLevel (hc : Contracted g w.toWeighting h) (hnodes : g.nodeCount ≤ UInt32.size)
    (n : NodeId) : h.level n ≤ topLevel := by
  by_cases hn : n < g.nodeCount
  · have hlevel := hc.level_lt n hn
    unfold topLevel
    omega
  · have hsize : h.levels.size = g.nodeCount := hc.nodeCount_eq
    have hout : h.levels[n]? = none := Array.getElem?_eq_none (hsize ▸ Nat.le_of_not_lt hn)
    rw [Hierarchy.level, hout]
    exact Nat.zero_le _

/-- The view at a virtual node lies above everything. -/
theorem level_over (n : NodeId) :
    (HierarchyView.over g o w.toWeighting h).routing.level n =
      if o.isVirtualNode n then topLevel else h.level n := rfl

/-- **Pieces can be climbed** by both sides, each in its own direction. -/
theorem climbStep_of_piece (hm : Measured g o cs) (hc : Contracted g w.toWeighting h)
    (hnodes : g.nodeCount ≤ UInt32.size) {v : EdgeView Exact} (hv : PieceView g cs v) {c : ℝ}
    (hcost : w.edgeWeight v false = .real c) :
    (HierarchyView.over g o w.toWeighting h).routing.ClimbStep true v.base v.adj c ∧
      (HierarchyView.over g o w.toWeighting h).routing.ClimbStep false v.adj v.base c := by
  -- One end of a piece is virtual, and virtual nodes are on the top level.
  have hclimbs : ∀ u, PieceView g cs u →
      (HierarchyView.over g o w.toWeighting h).routing.climbs (pieceOf g w h u) = true := by
    intro u hu
    have hbase : (pieceOf g w h u).base = u.base := rfl
    have hadj : (pieceOf g w h u).adj = u.adj := rfl
    unfold climbs
    rw [level_over, level_over, hbase, hadj, Bool.or_eq_true, beq_iff_eq, decide_eq_true_eq]
    cases hvirtual : o.isVirtualNode u.base with
    | true => exact .inl rfl
    | false =>
      have hend := (hm.virtual_end hu).resolve_left (by simp [hvirtual])
      rw [hend]
      exact .inr (level_le_topLevel hc hnodes _)
  obtain ⟨u, hu, hbase, hadj, hword, hreverse, hdistance, hmark⟩ := hv.exists_opposite
  have hback : w.edgeWeight u true = .real c := by
    rw [← hcost]
    refine w.edgeWeight_congr hword ?_ hdistance hmark
    simp [EdgeView.direction, hreverse]
  refine ⟨⟨pieceOf g w h v, ?_, hclimbs v hv, rfl, hcost⟩,
    ⟨pieceOf g w h u, ?_, hclimbs u hu, hadj, hback⟩⟩
  · exact (mem_sideEdges_over hm).2 (.inl ⟨v, hv, rfl, rfl, c, hcost⟩)
  · exact (mem_sideEdges_over hm).2 (.inl ⟨u, hu, hbase, rfl, c, hback⟩)

/-- A piece as a step of a walk. -/
def PieceStep (g : RoadGraph Exact) (cs : List (Chain Exact)) (w : SpeedWeighting Exact)
    (u v : NodeId) (c : ℝ) : Prop :=
  ∃ p, PieceView g cs p ∧ p.base = u ∧ p.adj = v ∧ w.edgeWeight p false = .real c

/-- A step that touches a virtual node is a piece. -/
theorem pieceStep_of_edgeStep (hm : Measured g o cs) {u v : NodeId} {c : ℝ}
    (hstep : EdgeStep (QueryGraph.ofOverlay g o) (QueryGraph.wrap o w.toWeighting) u v c)
    (hvirtual : ¬ o.isVirtualNode u = false ∨ ¬ o.isVirtualNode v = false) :
    PieceStep g cs w u v c := by
  obtain ⟨e, he, rfl, hcost⟩ := hstep
  obtain ⟨hp | ⟨d, hd, -, rfl⟩, rfl⟩ := (hm.mem_edges hm.wellFormed).1 he
  · exact ⟨e, hp, rfl, rfl, hcost⟩
  · -- A road that is not cut joins real nodes.
    have hends := hd.1.touches
    rcases hvirtual with hvirtual | hvirtual
    · exact absurd (hm.isVirtualNode_of_lt (hm.wellFormed.touches_lt hends.1)) hvirtual
    · exact absurd (hm.isVirtualNode_of_lt (hm.wellFormed.touches_lt hends.2)) hvirtual

/-- The view is what the search asks for. -/
theorem routable_over (hm : Measured g o cs) (hc : Contracted g w.toWeighting h) :
    (HierarchyView.over g o w.toWeighting h).routing.Routable where
  node_based := rfl
  base_eq forward n e he := by
    obtain ⟨v, -, hbase, rfl, -⟩ | ⟨-, he, -⟩ := (mem_sideEdges_over hm).1 he
    · exact hbase
    · exact hc.routable.base_eq forward n e he
  adj_lt forward n e he := by
    show e.adj < g.nodeCount + o.nodeCount
    obtain ⟨v, hv, -, rfl, -⟩ | ⟨-, he, -⟩ := (mem_sideEdges_over hm).1 he
    · exact hm.adj_lt hm.wellFormed (.inl hv)
    · have hlt := hc.routable.adj_lt forward n e he
      rw [show h.routing.nodeCount = g.nodeCount from hc.nodeCount_eq] at hlt
      exact Nat.lt_add_right _ hlt
  nonneg forward n e he c hcost := by
    obtain ⟨v, hv, -, rfl, -⟩ | ⟨-, he, -⟩ := (mem_sideEdges_over hm).1 he
    · cases forward with
      | true => exact hm.weight_nonneg (.inl hv) hcost
      | false => exact hm.weight_nonneg (.inl hv) hcost
    · exact hc.routable.nonneg forward n e he c hcost

/-! ## §3. Ways of a view. -/

/-- **What a side can have taken**: a piece, a piece turned round, or an edge of the hierarchy that
one of its ends does not hide. -/
theorem travels_over (hm : Measured g o cs) (hc : Contracted g w.toWeighting h)
    {e : HierarchyEdge Exact} (he : (HierarchyView.over g o w.toWeighting h).routing.Travels e) :
    (∃ v, PieceView g cs v ∧ (e = pieceOf g w h v ∨ e = (pieceOf g w h v).reversed)) ∨
      (Open h.edges e ∧ ∃ n, (n = e.base ∨ n = e.adj) ∧
        ∀ r, e.underlying = some r → o.hides n r = false) := by
  obtain hout | hin := he
  · have hout : e ∈ (HierarchyView.over g o w.toWeighting h).routing.sideEdges true e.base := hout
    obtain ⟨v, hv, -, heq, -⟩ | ⟨-, hside, hshown⟩ := (mem_sideEdges_over hm).1 hout
    · exact .inl ⟨v, hv, .inl heq⟩
    · exact .inr ⟨(hc.mem_sideEdges.1 hside).1, e.base, .inl rfl, hshown⟩
  · have hin : e.reversed ∈
        (HierarchyView.over g o w.toWeighting h).routing.sideEdges false e.adj := hin
    obtain ⟨v, hv, -, heq, -⟩ | ⟨-, hside, hshown⟩ := (mem_sideEdges_over hm).1 hin
    · exact .inl ⟨v, hv, .inr (by rw [← heq, reversed_reversed])⟩
    · have hopen : Open h.edges e.reversed.reversed := (hc.mem_sideEdges.1 hside).1
      rw [reversed_reversed] at hopen
      exact .inr ⟨hopen, e.adj, .inr rfl, hshown⟩

/-- **What the id of a step can stand for.** -/
inductive HierarchyView.Explains (v : HierarchyView Exact) (x : Hop) : Prop
  /-- An edge that the query graph offers where the step begins. -/
  | offered (u : EdgeView Exact) : u ∈ v.query.edges x.base → u.adj = x.adj → u.edge = x.edge →
      Explains v x
  /-- The opposite of such an edge, offered where the step ends. -/
  | opposite (u u' : EdgeView Exact) : u ∈ v.query.edges x.base → u.adj = x.adj →
      u' ∈ v.query.edges x.adj → u'.adj = x.base → u'.edge = x.edge → u.road = u'.road →
      u.isVirtual = true → Explains v x
  /-- A road that is cut, beneath a shortcut that the view still offers. -/
  | beneath (u : EdgeView Exact) (f : HierarchyEdge Exact) (fuel : Nat)
      (parts : List (HierarchyEdge Exact)) : u ∈ v.query.base.edges x.base → u.adj = x.adj →
      u.edge = x.edge → v.query.overlay.cuts x.edge = true → v.routing.Travels f →
      f.isShortcut = true → v.routing.unpack fuel f = .ok parts →
      (∃ p ∈ parts, hopOf p = x) → Explains v x

/-- A piece, in one direction or the other. -/
theorem explains_piece (hm : Measured g o cs) {v : EdgeView Exact} (hv : PieceView g cs v) :
    (HierarchyView.over g o w.toWeighting h).Explains (hopOf (pieceOf g w h v)) ∧
      (HierarchyView.over g o w.toWeighting h).Explains (hopOf (pieceOf g w h v).reversed) := by
  obtain ⟨c, hc, j, part, back, hpart, rfl⟩ := hv
  have hmem : ∀ back, c.view g j part back ∈
      (QueryGraph.ofOverlay g o).edges (c.view g j part back).base := fun back =>
    (hm.mem_edges hm.wellFormed).2 ⟨.inl ⟨c, hc, j, part, back, hpart, rfl⟩, rfl⟩
  have hends : (c.view g j part (!back)).base = (c.view g j part back).adj ∧
      (c.view g j part (!back)).adj = (c.view g j part back).base := by
    cases back <;> exact ⟨rfl, rfl⟩
  have hopposite := hmem (!back)
  rw [hends.1] at hopposite
  exact ⟨.offered _ (hmem back) rfl rfl,
    .opposite _ _ hopposite hends.2 (hmem back) rfl rfl rfl rfl⟩

/-- **What an edge of a way stands for.** -/
theorem unpack_over (hm : Measured g o cs) (hc : Contracted g w.toWeighting h)
    {e : HierarchyEdge Exact} (he : (HierarchyView.over g o w.toWeighting h).routing.Travels e)
    (n : Nat) :
    ∃ ps, (HierarchyView.over g o w.toWeighting h).routing.unpack (e.edge + n + 1) e = .ok ps ∧
      Joined (·.base) (·.adj) e.base ps e.adj ∧
      ∀ p ∈ ps, p.underlying.isSome = true ∧
        (HierarchyView.over g o w.toWeighting h).Explains (hopOf p) := by
  have hsingle : ∀ {e : HierarchyEdge Exact} (fuel : Nat), e.skipped = none →
      (HierarchyView.over g o w.toWeighting h).routing.unpack fuel e = .ok [e] := by
    intro e fuel hskipped
    unfold unpack
    rw [hskipped]
  obtain ⟨v, hv, hor⟩ | ⟨hopen, n', hend, hshown⟩ := travels_over hm hc he
  · obtain ⟨halong, hagainst⟩ := explains_piece (w := w) (h := h) hm hv
    refine ⟨[e], hsingle _ ?_, ⟨rfl, rfl⟩, fun p hp => ?_⟩
    · obtain rfl | rfl := hor <;> rfl
    · obtain rfl := List.mem_singleton.1 hp
      obtain rfl | rfl := hor
      · exact ⟨rfl, halong⟩
      · exact ⟨rfl, hagainst⟩
  · obtain ⟨ps, hps, hjoined, hroads, -⟩ := hc.unpack_open
      (r := (HierarchyView.over g o w.toWeighting h).routing) (fun i hi => if_pos hi) hopen
      (Nat.le_succ_of_le (Nat.le_add_right e.edge n))
    refine ⟨ps, hps, hjoined, fun p hp => ?_⟩
    obtain ⟨d, hoff, -, -, rfl⟩ := open_roadTable.1 (hroads p hp)
    refine ⟨rfl, ?_⟩
    by_cases hcut : ∃ c ∈ cs, c.road.edge = d.edge
    · -- An end that hides the road offers it beneath a shortcut only.
      have hshortcut : e.isShortcut = true := by
        rw [isShortcut, ← Option.not_isNone, Bool.not_eq_true']
        refine Bool.eq_false_iff.2 fun hnone => ?_
        have hone := hsingle (e.edge + n + 1) (Option.isNone_iff_eq_none.1 hnone)
        obtain rfl : ps = [e] := Except.ok.inj (hps.symm.trans hone)
        obtain rfl := List.mem_singleton.1 hp
        have hhidden : o.hides n' d.edge = true := by
          obtain rfl | rfl := hend
          · exact (hm.hides_base hoff.1).2 hcut
          · exact (hm.hides_base hoff.1.reversed).2 hcut
        rw [hshown d.edge rfl] at hhidden
        simp at hhidden
      exact .beneath (g.view d) e _ ps
        ((RoadGraph.mem_edges hm.wellFormed).2 ⟨d, hoff, rfl, rfl⟩) rfl rfl
        (hm.cuts_iff.2 hcut) he hshortcut hps ⟨_, hp, rfl⟩
    · exact .offered (g.view d) ((hm.mem_edges hm.wellFormed).2
        ⟨.inr ⟨d, hoff, fun c hc hedge => hcut ⟨c, hc, hedge⟩, rfl⟩, rfl⟩) rfl rfl

/-- **A way can be unpacked**, and each step of the path is explained. -/
theorem unpack_way (hm : Measured g o cs) (hc : Contracted g w.toWeighting h)
    {es : List (HierarchyEdge Exact)} (hj : Joined (·.base) (·.adj) s es t)
    (hes : ∀ e ∈ es, (HierarchyView.over g o w.toWeighting h).routing.Travels e) (n : Nat) :
    ∃ parts, es.mapM (fun e => (HierarchyView.over g o w.toWeighting h).routing.unpack
        (e.edge + n + 1) e) = .ok parts ∧
      Joined (·.base) (·.adj) s parts.flatten t ∧
      ∀ p ∈ parts.flatten, p.underlying.isSome = true ∧
        (HierarchyView.over g o w.toWeighting h).Explains (hopOf p) := by
  obtain ⟨parts, hparts, hall⟩ := mapM_ok fun e he => unpack_over hm hc (hes e he) n
  refine ⟨parts, hparts, hj.flatten (hall.imp fun _ _ h => h.1), fun p hp => ?_⟩
  obtain ⟨ps, hps, hp⟩ := List.mem_flatten.1 hp
  -- Each list of parts belongs to one of the edges.
  have hexplained : List.Forall₂ (fun ps _ => (∀ p ∈ ps, p.underlying.isSome = true ∧
      (HierarchyView.over g o w.toWeighting h).Explains (hopOf p)) ∧ True) parts es :=
    hall.flip.imp fun _ _ h => ⟨h.2, trivial⟩
  exact ((List.forall₂_and_left _ _).1 hexplained).1 ps hps p hp

/-! ## §4. Paths on a view. -/

/-- **What the steps of a path on a view are.**  The search on a view always answers; its path is a
row of steps between neighbouring nodes, and each id on it is that of an edge that the query graph
offers there, that of the opposite edge, or that of a cut road beneath a shortcut. -/
theorem view_route_explained (hg : g.Built) (hd : NonnegDistances g)
    {snaps final : Array (Snap Exact)} (hsnaps : Splicing.OnRoads g snaps)
    (hbuild : Overlay.build g snaps = (.ok o, final)) (w : SpeedWeighting Exact) :
    ∃ h, contract g w.toWeighting = .ok h ∧
      (h.edgeCount + o.edgeCount ≤ HierarchyView.edgeLimit →
        ∃ v, HierarchyView.make h.routing (QueryGraph.ofOverlay g o) w.toWeighting = .ok v ∧
          ∀ s t, s < (QueryGraph.ofOverlay g o).nodeCount →
            t < (QueryGraph.ofOverlay g o).nodeCount →
              ∃ r, v.routing.route s t = .ok r ∧ ∀ p, r = some p →
                ∃ hops : List Hop, Joined (·.base) (·.adj) s hops t ∧
                  p.nodes = s :: hops.map (·.adj) ∧ p.edges = hops.map (·.edge) ∧
                    ∀ x ∈ hops, v.Explains x) := by
  have hwf := hg.wellFormed
  obtain ⟨cs, hm⟩ := Overlay.measured_of_build hwf hsnaps hbuild hd
  obtain ⟨h, hcontract, hc⟩ := contract_spec hwf hd w
  refine ⟨h, hcontract, fun hlimit => ⟨_, HierarchyView.make_eq hc hlimit, ?_⟩⟩
  intro s t hs ht
  by_cases hst : s = t
  · subst hst
    refine ⟨some (Path.single s), ?_, fun p hp => ⟨[], rfl, ?_⟩⟩
    · simp [route, (routable_over hm hc).node_based, pure, Except.pure]
    · obtain rfl := Option.some.inj hp
      exact ⟨rfl, rfl, by simp⟩
  obtain ⟨hroute, -⟩ | ⟨es, z, hj, htravels, -, -, -, hroute⟩ :=
    route_eq (routable_over hm hc) hs ht hst
  · exact ⟨none, hroute, fun p hp => by cases hp⟩
  · obtain ⟨parts, hparts, hjoined, hexplained⟩ := unpack_way hm hc hj htravels
      (HierarchyView.over g o w.toWeighting h).routing.edgeCount
    rw [hparts] at hroute
    refine ⟨_, hroute, fun p hp => ⟨parts.flatten.map hopOf, Joined.map.2 hjoined, ?_, ?_, ?_⟩⟩
    · obtain rfl := Option.some.inj hp
      rw [List.map_map]
      rfl
    · obtain rfl := Option.some.inj hp
      rw [List.map_map]
      -- Every part has an id, so none is dropped.
      rw [← List.filterMap_eq_map']
      refine List.filterMap_congr fun p hp => ?_
      obtain ⟨r, hr⟩ := Option.isSome_iff_exists.1 (hexplained p hp).1
      simp [hopOf, hr]
    · intro x hx
      obtain ⟨p, hp, rfl⟩ := List.mem_map.1 hx
      exact (hexplained p hp).2

/-! ## §5. A view of a road that is cut twice. -/

theorem nonnegDistances_cutRoad (word : Nat) : NonnegDistances (Splicing.cutRoad word) := by
  refine nonnegDistances_oneRoad _ _ _ ?_ _
  obtain ⟨x, hx, heq⟩ := Splicing.levelLength_real 0 (.inl rfl) (.inr rfl)
  rw [heq, Exact.zero_eq, Exact.real_le_real]
  exact hx

theorem word_cutRoad (word : Nat) : (Splicing.cutRoad word).word 0 = BitVec.ofNat 64 word := by
  unfold Splicing.cutRoad Splicing.levelRoad RoadGraph.word
  rw [(RoadGraph.oneRoad_eq _ _ _ _ _).2.2.1]
  rfl

/-- The first piece of the road can be passed. -/
theorem edgeStep_cutRoad (hs : Spliced (Splicing.cutRoad SpeedWeighting.openWord) o
    [Splicing.levelChain 0 (Splicing.atInner 0) (Splicing.between 0)]) :
    ∃ x, EdgeStep (QueryGraph.ofOverlay (Splicing.cutRoad SpeedWeighting.openWord) o)
      (QueryGraph.wrap o SpeedWeighting.carWithoutTurns.toWeighting) 0
      (Splicing.cutRoad SpeedWeighting.openWord).nodeCount x := by
  obtain ⟨x, -, hlength⟩ := Splicing.levelLength_real 0 (.inl rfl) (.inr rfl)
  unfold Splicing.levelLength at hlength
  have hroad : (Splicing.levelChain 0 (Splicing.atInner 0) (Splicing.between 0)).road =
      RoadGraph.onlyRoad := rfl
  have hstart : (Splicing.levelChain 0 (Splicing.atInner 0) (Splicing.between 0)).start = 0 := rfl
  generalize Splicing.levelChain 0 (Splicing.atInner 0) (Splicing.between 0) = c at *
  have hc : c ∈ [c] := List.mem_singleton.2 rfl
  have hword := word_cutRoad SpeedWeighting.openWord
  rw [show 0 = c.road.edge by rw [hroad]; rfl] at hword
  obtain ⟨part, hpart⟩ := hs.laid.exists_part hc (Nat.zero_le _)
  have hdistance : part.distance.IsReal := (Exact.isReal_total _).1 ⟨x, hlength⟩ _
    (List.mem_map_of_mem (List.mem_of_getElem? hpart))
  obtain ⟨y, hstep⟩ := hs.exists_edgeStep (Splicing.built_cutRoad _).wellFormed rfl
    SpeedWeighting.isReal_carPenalty hc hword hpart hdistance false
  have hbase : c.along (Splicing.cutRoad SpeedWeighting.openWord) 0 = 0 := by
    show c.road.base = 0
    rw [hroad]
    rfl
  have hadj : c.along (Splicing.cutRoad SpeedWeighting.openWord) 1 =
      (Splicing.cutRoad SpeedWeighting.openWord).nodeCount := by
    refine (c.node_virtual _ (List.length_pos_iff.2 (hs.laid.points_ne _ hc))).trans ?_
    rw [hstart]
    rfl
  rw [← hbase, ← hadj]
  exact ⟨y, hstep⟩

/-- Two nodes need no shortcuts. -/
theorem edges_cutRoad (hc : Contracted (Splicing.cutRoad SpeedWeighting.openWord)
    SpeedWeighting.carWithoutTurns.toWeighting h) :
    h.edges = roadTable (Splicing.cutRoad SpeedWeighting.openWord)
      SpeedWeighting.carWithoutTurns.toWeighting :=
  hc.grown.eq_of_two hc.roads (RoadGraph.nodeCount_oneRoad _ _ _ _ _).le

/-- So the ids of a few pieces fit. -/
theorem few_fit_cutRoad (hc : Contracted (Splicing.cutRoad SpeedWeighting.openWord)
    SpeedWeighting.carWithoutTurns.toWeighting h) (hslots : o.edgeCount = 4 * o.nodeCount)
    (hfew : o.nodeCount ≤ 2) : h.edgeCount + o.edgeCount ≤ HierarchyView.edgeLimit := by
  have hedges : h.edgeCount = 1 := by
    rw [Hierarchy.edgeCount, edges_cutRoad hc, roadTable, Array.size_mapIdx]
    exact Splicing.edgeCount_cutRoad _
  rw [hedges, hslots, HierarchyView.edgeLimit, show UInt32.size = 4294967296 from rfl]
  omega

theorem fits_cutRoad (hs : Spliced (Splicing.cutRoad SpeedWeighting.openWord) o
    [Splicing.levelChain 0 (Splicing.atInner 0) (Splicing.between 0)])
    (hcontract : contract (Splicing.cutRoad SpeedWeighting.openWord)
      SpeedWeighting.carWithoutTurns.toWeighting = .ok h) :
    h.edgeCount + o.edgeCount ≤ HierarchyView.edgeLimit := by
  obtain ⟨h', hcontract', hc⟩ := contract_spec
    (Splicing.built_cutRoad SpeedWeighting.openWord).wellFormed (nonnegDistances_cutRoad _)
    SpeedWeighting.carWithoutTurns
  obtain rfl := Except.ok.inj (hcontract.symm.trans hcontract')
  exact few_fit_cutRoad hc hs.laid.slots_size (Splicing.nodeCount_levelChain 0 hs.laid).2

/-- From an end of the road to the first virtual node on it there is a path, and its steps are
explained. -/
theorem view_route_explained_cutRoad :
    ∃ (g : RoadGraph Exact) (snaps final : Array (Snap Exact)) (o : Overlay Exact)
      (h : Hierarchy Exact) (v : HierarchyView Exact) (p : Path Exact) (hops : List Hop),
      (g.Built ∧ NonnegDistances g ∧ Splicing.OnRoads g snaps ∧
        Overlay.build g snaps = (.ok o, final) ∧
        contract g SpeedWeighting.carWithoutTurns.toWeighting = .ok h ∧
        h.edgeCount + o.edgeCount ≤ HierarchyView.edgeLimit) ∧
      HierarchyView.make h.routing (QueryGraph.ofOverlay g o)
        SpeedWeighting.carWithoutTurns.toWeighting = .ok v ∧
      v.routing.route 0 g.nodeCount = .ok (some p) ∧
      Joined (·.base) (·.adj) 0 hops g.nodeCount ∧ p.edges = hops.map (·.edge) ∧
        ∀ x ∈ hops, v.Explains x := by
  have hbuilt := Splicing.built_cutRoad SpeedWeighting.openWord
  have hd := nonnegDistances_cutRoad SpeedWeighting.openWord
  have hsnaps := Splicing.onRoads_cutRoad SpeedWeighting.openWord
  obtain ⟨o, final, hbuild, hspliced⟩ := Splicing.build_cutRoad SpeedWeighting.openWord
  have hcount : (Splicing.cutRoad SpeedWeighting.openWord).nodeCount = 2 :=
    RoadGraph.nodeCount_oneRoad _ _ _ _ _
  have hpos := (Splicing.nodeCount_levelChain 0 hspliced.laid).1
  obtain ⟨h, hcontract, hview⟩ :=
    view_route_explained hbuilt hd hsnaps hbuild SpeedWeighting.carWithoutTurns
  have hfits := fits_cutRoad hspliced hcontract
  obtain ⟨v, hmake, hroutes⟩ := hview hfits
  have hquery : (QueryGraph.ofOverlay (Splicing.cutRoad SpeedWeighting.openWord) o).nodeCount =
      (Splicing.cutRoad SpeedWeighting.openWord).nodeCount + o.nodeCount := rfl
  have hsource : 0 < (QueryGraph.ofOverlay (Splicing.cutRoad SpeedWeighting.openWord) o).nodeCount :=
    by omega
  have htarget : (Splicing.cutRoad SpeedWeighting.openWord).nodeCount <
      (QueryGraph.ofOverlay (Splicing.cutRoad SpeedWeighting.openWord) o).nodeCount := by omega
  have hne : 0 ≠ (Splicing.cutRoad SpeedWeighting.openWord).nodeCount := by omega
  obtain ⟨r, hroute, hexplained⟩ := hroutes 0 _ hsource htarget
  -- One side can climb all the way, so there is a path.
  obtain ⟨p, rfl⟩ : ∃ p, r = some p := by
    obtain ⟨cs, hm⟩ := Overlay.measured_of_build hbuilt.wellFormed hsnaps hbuild hd
    obtain ⟨h', hcontract', hc⟩ := contract_spec hbuilt.wellFormed hd SpeedWeighting.carWithoutTurns
    obtain rfl := Except.ok.inj (hcontract.symm.trans hcontract')
    obtain rfl := Except.ok.inj (hmake.symm.trans (HierarchyView.make_eq hc hfits))
    obtain ⟨x, hstep⟩ := edgeStep_cutRoad hspliced
    have hvirtual : ¬ o.isVirtualNode (Splicing.cutRoad SpeedWeighting.openWord).nodeCount = false :=
      fun hreal => by
        have hlt := Overlay.lt_of_not_isVirtualNode (o := o)
          (by rw [hspliced.firstNode_eq]; exact Nat.lt_add_of_pos_right hpos) hreal
        rw [hspliced.firstNode_eq] at hlt
        exact absurd hlt (Nat.lt_irrefl _)
    obtain ⟨u, hu, hbase, hadj, hcost⟩ := pieceStep_of_edgeStep hm hstep (.inr hvirtual)
    have hclimb := (climbStep_of_piece hm hc (hcount ▸ by decide) hu hcost).1
    rw [hbase, hadj] at hclimb
    obtain ⟨-, hnone⟩ | ⟨es, z, hj, htravels, -, -, -, hfound⟩ :=
      route_eq (routable_over hm hc) hsource htarget hne
    · exact (hnone _ ⟨_, x, 0, .single hclimb, .nil _, rfl⟩).elim
    · obtain ⟨parts, hparts, -⟩ := unpack_way hm hc hj htravels
        (HierarchyView.over _ o SpeedWeighting.carWithoutTurns.toWeighting h).routing.edgeCount
      rw [hparts] at hfound
      exact ⟨_, Except.ok.inj (hroute.symm.trans hfound)⟩
  obtain ⟨hops, hjoined, -, hedges, hall⟩ := hexplained p rfl
  exact ⟨_, _, final, o, h, v, p, hops, ⟨hbuilt, hd, hsnaps, hbuild, hcontract, hfits⟩, hmake,
    hroute, hjoined, hedges, hall⟩

end RoadSplice

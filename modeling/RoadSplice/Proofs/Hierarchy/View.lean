/-
  RoadSplice.Proofs.Hierarchy.View — the search on a hierarchy seen through an overlay.

  A piece has a virtual node at one end, so both sides of a search can climb it, and an edge of the
  hierarchy whose road is cut is climbed over its pieces instead.  So what two climbs meet at is a
  walk of the query graph, every walk of the query graph costs at least as much as some meeting,
  and the search finds the shortest walks although shortcuts still stand for roads that are cut.
-/
import RoadSplice.Proofs.Hierarchy.ViewEdges
import RoadSplice.Proofs.Query.Opened

namespace RoadSplice

open HierarchyEdge RoutingHierarchy Overlay

variable {g : RoadGraph Exact} {o : Overlay Exact} {cs : List (Chain Exact)}
  {w : SpeedWeighting Exact} {h : Hierarchy Exact} {s t : NodeId}

/-! ## §1. From climbs to walks. -/

/-- What a side takes is a walk of the query graph, read in the direction of the side. -/
theorem walk_of_climbStep (ha : Additive g o cs) (hc : Contracted g w.toWeighting h)
    {forward : Bool} {u v : NodeId} {c : ℝ}
    (hstep : (HierarchyView.over g o w.toWeighting h).routing.ClimbStep forward u v c) :
    ∃ c', Walk (EdgeStep (QueryGraph.ofOverlay g o) (QueryGraph.wrap o w.toWeighting))
      (if forward then u else v) (if forward then v else u) c' ∧ c' ≤ c := by
  obtain ⟨e, he, -, rfl, hcost⟩ := hstep
  obtain ⟨p, hp, rfl, rfl, -⟩ | ⟨-, he, -⟩ := (mem_sideEdges_over ha.toMeasured).1 he
  · -- A piece is passed as it is or, on the way back, as the one paired with it.
    cases forward with
    | true =>
      exact ⟨c, .single ⟨p, (ha.mem_edges ha.wellFormed).2 ⟨.inl hp, rfl⟩, rfl, hcost⟩, le_rfl⟩
    | false =>
      obtain ⟨q, hq, hbase, hadj, hword, hreverse, hdistance, hmark⟩ := hp.exists_opposite
      have hback : w.edgeWeight q false = .real c := by
        rw [← show w.edgeWeight p true = .real c from hcost]
        refine w.edgeWeight_congr hword ?_ hdistance hmark
        simp [EdgeView.direction, hreverse]
      exact ⟨c, .single ⟨q, (ha.mem_edges ha.wellFormed).2 ⟨.inl hq, hbase⟩, hadj, hback⟩, le_rfl⟩
  · -- An edge of the hierarchy is a walk over roads, and each of these a walk of the query graph.
    obtain ⟨hopen, rfl⟩ := hc.mem_sideEdges.1 he
    cases forward with
    | true =>
      exact (walk_of_open hc ha.wellFormed hopen hcost).dominated fun hstep =>
        ⟨_, ha.walk_of_edgeStep hstep, le_rfl⟩
    | false =>
      exact (walk_of_open hc ha.wellFormed hopen hcost).dominated fun hstep =>
        ⟨_, ha.walk_of_edgeStep hstep, le_rfl⟩

/-- **A meeting is a walk of the query graph** at no greater cost. -/
theorem walk_of_meets (ha : Additive g o cs) (hc : Contracted g w.toWeighting h) {z : ℝ}
    (hmeets : Meets (HierarchyView.over g o w.toWeighting h).routing s t z) :
    ∃ x, Walk (EdgeStep (QueryGraph.ofOverlay g o) (QueryGraph.wrap o w.toWeighting)) s t x ∧
      x ≤ z := by
  obtain ⟨m, a, b, hup, hdown, rfl⟩ := hmeets
  obtain ⟨x, hx, hle⟩ := hup.dominated fun hstep => walk_of_climbStep ha hc hstep
  obtain ⟨y, hy, hle'⟩ := hdown.reverse.dominated fun hstep => walk_of_climbStep ha hc hstep
  exact ⟨x + y, hx.trans hy, add_le_add hle hle'⟩

/-! ## §2. From walks to climbs. -/

/-- **Walks over pieces** can be climbed from both ends. -/
theorem climb_of_pieces (ha : Additive g o cs) (hc : Contracted g w.toWeighting h)
    (hnodes : g.nodeCount ≤ UInt32.size) {u v : NodeId} {x : ℝ}
    (hw : Walk (PieceStep g cs w) u v x) :
    Walk ((HierarchyView.over g o w.toWeighting h).routing.ClimbStep true) u v x ∧
      Walk ((HierarchyView.over g o w.toWeighting h).routing.ClimbStep false) v u x := by
  refine ⟨hw.mono ?_, hw.reverse.mono ?_⟩
  · rintro u v c ⟨p, hp, rfl, rfl, hcost⟩
    exact (climbStep_of_piece ha.toMeasured hc hnodes hp hcost).1
  · rintro u v c ⟨p, hp, rfl, rfl, hcost⟩
    exact (climbStep_of_piece ha.toMeasured hc hnodes hp hcost).2

/-- A road that is cut is a walk over pieces. -/
theorem pieces_of_cut (ha : Additive g o cs) {d : DirectedEdge} (hoff : g.Offers d)
    (hcut : ∃ c ∈ cs, c.road.edge = d.edge) {c : ℝ} (hcost : w.edgeWeight (g.view d) false = .real c) :
    Walk (PieceStep g cs w) d.base d.adj c := by
  have hruns := ha.runs_of_offers ha.wellFormed hoff
  have hweight := (Spliced.weight_runs (w := w) (ha.sum d hoff) hruns).trans hcost
  have hpieces : ∀ v ∈ (QueryGraph.ofOverlay g o).expand (g.view d), PieceView g cs v := by
    intro v hv
    refine (hruns.edges v hv).resolve_right ?_
    rintro ⟨d', hd', huncut, rfl⟩
    obtain ⟨c', hc', hedge⟩ := hcut
    exact huncut c' hc' (hedge.trans (hruns.roads _ hv).2.1.symm)
  exact Walk.of_total hweight hruns.joined fun v hv a hreal => ⟨v, hpieces v hv, rfl, rfl, hreal⟩

/-- **An open edge of the hierarchy can be climbed**, by itself or over the pieces of its road, and
so can it be against its direction. -/
theorem climb_of_open (ha : Additive g o cs) (hc : Contracted g w.toWeighting h)
    (hnodes : g.nodeCount ≤ UInt32.size) {f : HierarchyEdge Exact} (hf : Open h.edges f) {c : ℝ}
    (hcost : f.weightForward = .real c) :
    (h.level f.base ≤ h.level f.adj →
      Walk ((HierarchyView.over g o w.toWeighting h).routing.ClimbStep true) f.base f.adj c) ∧
    (h.level f.adj ≤ h.level f.base →
      Walk ((HierarchyView.over g o w.toWeighting h).routing.ClimbStep false) f.adj f.base c) := by
  have hkept : (∀ r, f.underlying = some r → ∀ c ∈ cs, c.road.edge ≠ r) →
      ∀ n r, f.underlying = some r → o.hides n r = false := fun huncut n r hr => by
    rw [← Bool.not_eq_true, ha.hides_iff]
    rintro ⟨c, hc, hedge, -⟩
    exact huncut r hr c hc hedge
  by_cases hcut : ∃ r c, f.underlying = some r ∧ c ∈ cs ∧ c.road.edge = r
  · -- The edge is a road that is hidden at both ends, and its pieces lead around it.
    obtain ⟨r, c', hr, hc', rfl⟩ := hcut
    have hroad := (hc.grown.road_or_shortcut hf.inTable).resolve_right (by simp [hr])
    obtain ⟨d, hoff, hne, -, rfl⟩ := open_roadTable.1 ⟨hroad, hf.no_loop, hf.finite⟩
    have hedge : d.edge = c'.road.edge := Option.some.inj hr
    have hclimbs := climb_of_pieces ha hc hnodes
      (pieces_of_cut ha hoff ⟨c', hc', hedge.symm⟩ hcost)
    exact ⟨fun _ => hclimbs.1, fun _ => hclimbs.2⟩
  · -- A road that is not cut, or a shortcut: each end lists the edge as before.
    have hnot := hkept fun r hr c hc hedge => hcut ⟨r, c, hr, hc, hedge⟩
    have hends := hc.ends_lt hf
    have hbase := ha.isVirtualNode_of_lt hends.1
    have hadj := ha.isVirtualNode_of_lt hends.2
    constructor
    · intro hle
      have hside : f ∈ (HierarchyView.over g o w.toWeighting h).routing.sideEdges true f.base :=
        (mem_sideEdges_over ha.toMeasured).2
          (.inr ⟨hbase, hc.mem_sideEdges.2 ⟨hf, rfl⟩, hnot f.base⟩)
      refine .single ⟨f, hside, ?_, rfl, hcost⟩
      simp [climbs, level_over, hbase, hadj, hle]
    · intro hle
      have hback : Open h.edges f.reversed.reversed := by rwa [reversed_reversed]
      have hside : f.reversed ∈
          (HierarchyView.over g o w.toWeighting h).routing.sideEdges false f.adj :=
        (mem_sideEdges_over ha.toMeasured).2
          (.inr ⟨hadj, hc.mem_sideEdges.2 ⟨hback, rfl⟩, hnot f.adj⟩)
      refine .single ⟨f.reversed, hside, ?_, rfl, hcost⟩
      simp [climbs, level_over, HierarchyEdge.reversed, hbase, hadj, hle]

/-- **Walks between real nodes** are matched by meetings. -/
theorem meets_of_real (ha : Additive g o cs) (hc : Contracted g w.toWeighting h)
    (hnodes : g.nodeCount ≤ UInt32.size) {x : ℝ}
    (hw : Walk (EdgeStep (QueryGraph.ofOverlay g o) (QueryGraph.wrap o w.toWeighting)) s t x)
    (hs : s < g.nodeCount) (ht : t < g.nodeCount) :
    ∃ y, Meets (HierarchyView.over g o w.toWeighting h).routing s t y ∧ y ≤ x := by
  obtain ⟨y, hy, hle⟩ := ha.exists_walk hw hs ht
  obtain ⟨z, hz, hle'⟩ := openWalk_of_walk hc ha.wellFormed ha.roads hy
  obtain ⟨y', ⟨m, a, b, hup, hdown, rfl⟩, hle''⟩ := UpDown.of_walk hc.leveled hz
  -- Each step of the climb, and of the descent, is climbed in the view.
  obtain ⟨a', hup', hlea⟩ := hup.dominated fun {u v c} hstep => by
    obtain ⟨f, hf, rfl, rfl, hcost, hlt⟩ := hstep
    exact ⟨c, (climb_of_open ha hc hnodes hf hcost).1 hlt.le, le_rfl⟩
  obtain ⟨b', hdown', hleb⟩ := hdown.dominated fun {u v c} hstep => by
    obtain ⟨f, hf, rfl, rfl, hcost, hlt⟩ := hstep
    exact ⟨c, (climb_of_open ha hc hnodes hf hcost).2 hlt.le, le_rfl⟩
  exact ⟨a' + b', ⟨m, a', b', hup', hdown', rfl⟩, by linarith⟩

/-- Walks stay among the nodes of the query graph. -/
theorem lt_of_walk (ha : Additive g o cs) {u v : NodeId} {x : ℝ}
    (hw : Walk (EdgeStep (QueryGraph.ofOverlay g o) (QueryGraph.wrap o w.toWeighting)) u v x)
    (hu : u < (QueryGraph.ofOverlay g o).nodeCount) :
    v < (QueryGraph.ofOverlay g o).nodeCount := by
  refine hw.preserves (P := fun n => n < (QueryGraph.ofOverlay g o).nodeCount) ?_ hu
  rintro u v c ⟨e, he, rfl, -⟩ -
  exact ha.adj_lt ha.wellFormed ((ha.mem_edges ha.wellFormed).1 he).1

theorem lt_of_real (ha : Additive g o cs) {n : NodeId}
    (hn : n < (QueryGraph.ofOverlay g o).nodeCount) (hreal : o.isVirtualNode n = false) :
    n < g.nodeCount := by
  rw [← ha.firstNode_eq]
  refine Overlay.lt_of_not_isVirtualNode ?_ hreal
  rw [ha.firstNode_eq]
  exact hn

/-- A walk over pieces is a walk of the query graph. -/
theorem walk_of_pieces (ha : Additive g o cs) {u v : NodeId} {x : ℝ}
    (hw : Walk (PieceStep g cs w) u v x) :
    Walk (EdgeStep (QueryGraph.ofOverlay g o) (QueryGraph.wrap o w.toWeighting)) u v x := by
  refine hw.mono ?_
  rintro u v c ⟨p, hp, rfl, rfl, hcost⟩
  exact ⟨p, (ha.mem_edges ha.wellFormed).2 ⟨.inl hp, rfl⟩, rfl, hcost⟩

/-- A walk that begins at a real node enters its last chain from a real node. -/
theorem exists_last_real (ha : Additive g o cs) {r : NodeId} {x : ℝ}
    (hr : o.isVirtualNode r = false)
    (hw : Walk (EdgeStep (QueryGraph.ofOverlay g o) (QueryGraph.wrap o w.toWeighting)) r t x) :
    ∃ r' a b, o.isVirtualNode r' = false ∧
      Walk (EdgeStep (QueryGraph.ofOverlay g o) (QueryGraph.wrap o w.toWeighting)) r r' a ∧
        Walk (PieceStep g cs w) r' t b ∧ x = a + b := by
  -- The first real node of the walk read backwards.
  have hsplit : Walk (fun u v c => PieceStep g cs w v u c) t r x ∨ ∃ r' b a,
      o.isVirtualNode r' = false ∧ Walk (fun u v c => PieceStep g cs w v u c) t r' b ∧
        Walk (fun u v c => EdgeStep (QueryGraph.ofOverlay g o)
          (QueryGraph.wrap o w.toWeighting) v u c) r' r a ∧ x = b + a :=
    hw.reverse.split fun hstep hnot => pieceStep_of_edgeStep ha.toMeasured hstep (.inr hnot)
  obtain hall | ⟨r', b, a, hr', hback, hfront, rfl⟩ := hsplit
  · exact ⟨r, 0, x, hr, .nil r, hall.reverse, by ring⟩
  · exact ⟨r', a, b, hr', hfront.reverse, hback.reverse, by ring⟩

/-- **Every walk of the query graph is matched by a meeting.**  The walk leaves its first chain over
pieces, runs between real nodes, and enters its last chain over pieces. -/
theorem meets_of_query (ha : Additive g o cs) (hc : Contracted g w.toWeighting h)
    (hnodes : g.nodeCount ≤ UInt32.size) {x : ℝ}
    (hw : Walk (EdgeStep (QueryGraph.ofOverlay g o) (QueryGraph.wrap o w.toWeighting)) s t x)
    (hs : s < (QueryGraph.ofOverlay g o).nodeCount) :
    ∃ y, Meets (HierarchyView.over g o w.toWeighting h).routing s t y ∧ y ≤ x := by
  have hsplit : Walk (PieceStep g cs w) s t x ∨ ∃ r a b, o.isVirtualNode r = false ∧
      Walk (PieceStep g cs w) s r a ∧ Walk (EdgeStep (QueryGraph.ofOverlay g o)
        (QueryGraph.wrap o w.toWeighting)) r t b ∧ x = a + b :=
    hw.split fun hstep hnot => pieceStep_of_edgeStep ha.toMeasured hstep (.inl hnot)
  obtain hall | ⟨r, a, b, hr, hfront, hrest, rfl⟩ := hsplit
  · -- The walk never leaves a real node: one side climbs all the way.
    exact ⟨x, ⟨t, x, 0, (climb_of_pieces ha hc hnodes hall).1, .nil t, by ring⟩, le_rfl⟩
  · obtain ⟨r', b, d, hr', hmiddle, hback, rfl⟩ := exists_last_real ha hr hrest
    have hrlt := lt_of_walk ha (walk_of_pieces ha hfront) hs
    have hrlt' := lt_of_walk ha hmiddle hrlt
    obtain ⟨y, ⟨m, up, down, hup, hdown, rfl⟩, hle⟩ := meets_of_real ha hc hnodes hmiddle
      (lt_of_real ha hrlt hr) (lt_of_real ha hrlt' hr')
    have hclimb := (climb_of_pieces ha hc hnodes hfront).1
    have hclimb' := (climb_of_pieces ha hc hnodes hback).2
    exact ⟨(a + up) + (d + down), ⟨m, _, _, hclimb.trans hup, hclimb'.trans hdown, rfl⟩, by linarith⟩

/-! ## §3. The search. -/

/-- **What the search on a view answers**: the least cost of a walk of the query graph. -/
theorem route_over (ha : Additive g o cs) (hc : Contracted g w.toWeighting h)
    (hnodes : g.nodeCount ≤ UInt32.size) (hs : s < (QueryGraph.ofOverlay g o).nodeCount)
    (ht : t < (QueryGraph.ofOverlay g o).nodeCount) :
    ∃ r, (HierarchyView.over g o w.toWeighting h).routing.route s t = .ok r ∧
      Shortest (EdgeStep (QueryGraph.ofOverlay g o) (QueryGraph.wrap o w.toWeighting)) s t
        (r.map (·.weight)) := by
  have hroutable := routable_over ha.toMeasured hc
  by_cases hst : s = t
  · subst hst
    refine ⟨some (Path.single s), ?_, 0, Exact.zero_eq, .nil s,
      fun y hy => hy.nonneg (ha.nonnegWeights w)⟩
    simp [route, hroutable.node_based, pure, Except.pure]
  obtain ⟨hroute, hnone⟩ | ⟨es, z, hj, htravels, -, hmeet, hleast, hroute⟩ :=
    route_eq hroutable hs ht hst
  · refine ⟨none, hroute, fun x hx => ?_⟩
    obtain ⟨y, hy, -⟩ := meets_of_query ha hc hnodes hx hs
    exact hnone y hy
  · obtain ⟨parts, hparts, -⟩ := unpack_way ha.toMeasured hc hj htravels
      (HierarchyView.over g o w.toWeighting h).routing.edgeCount
    rw [hparts] at hroute
    refine ⟨_, hroute, ?_⟩
    -- The meeting is a walk that costs no more, and no walk costs less than the meeting.
    obtain ⟨x, hx, hle⟩ := walk_of_meets ha hc hmeet
    have hge : ∀ y, Walk (EdgeStep (QueryGraph.ofOverlay g o)
        (QueryGraph.wrap o w.toWeighting)) s t y → z ≤ y := by
      intro y hy
      obtain ⟨y', hy', hle'⟩ := meets_of_query ha hc hnodes hy hs
      exact (hleast y' hy').trans hle'
    obtain rfl : x = z := le_antisymm hle (hge x hx)
    exact ⟨x, rfl, hx, hge⟩

/-- **The search on a spliced hierarchy finds the shortest paths of the query graph.**  Where the
ids of the pieces fit behind those of the hierarchy, a view can be made, and between any two nodes,
real or virtual, the search on it answers with a path exactly when the search from node to node
does, and with the same weight. -/
theorem view_route_eq_dijkstra (hg : g.Built) (hnodes : g.nodeCount ≤ UInt32.size)
    (hd : NonnegDistances g) {snaps final : Array (Snap Exact)} (hsnaps : Splicing.OnRoads g snaps)
    (hbuild : Overlay.build g snaps = (.ok o, final)) (hsum : DistancesAddUp g o)
    (w : SpeedWeighting Exact) (hturns : w.config.turnCosts = false) :
    ∃ h, contract g w.toWeighting = .ok h ∧
      (h.edgeCount + o.edgeCount ≤ HierarchyView.edgeLimit →
        ∃ v, HierarchyView.make h.routing (QueryGraph.ofOverlay g o) w.toWeighting = .ok v ∧
          ∀ s t, s < (QueryGraph.ofOverlay g o).nodeCount →
            t < (QueryGraph.ofOverlay g o).nodeCount →
              ∃ r, v.routing.route s t = .ok r ∧ r.map (·.weight) =
                (dijkstra (QueryGraph.ofOverlay g o) (QueryGraph.wrap o w.toWeighting) s t).map
                  (·.weight)) := by
  have hwf := hg.wellFormed
  obtain ⟨cs, hm⟩ := Overlay.measured_of_build hwf hsnaps hbuild hd
  have ha : Additive g o cs := ⟨hm, hsum⟩
  obtain ⟨h, hcontract, hc⟩ := contract_spec hwf hd w
  refine ⟨h, hcontract, fun hlimit => ⟨_, HierarchyView.make_eq hc hlimit, ?_⟩⟩
  intro s t hs ht
  obtain ⟨r, hroute, hshortest⟩ := route_over ha hc hnodes hs ht
  exact ⟨r, hroute, hshortest.unique
    (dijkstra_shortest_walk (QueryGraph.sound_of_build hwf hbuild).readable
      (ha.nonnegWeights w) hturns s t)⟩

/-- From an end of a road that is cut twice to the first virtual node on it, both searches find a
path. -/
theorem view_route_eq_dijkstra_cutRoad :
    ∃ (g : RoadGraph Exact) (snaps final : Array (Snap Exact)) (o : Overlay Exact)
      (h : Hierarchy Exact) (v : HierarchyView Exact) (p p' : Path Exact),
      (g.Built ∧ g.nodeCount ≤ UInt32.size ∧ NonnegDistances g ∧ Splicing.OnRoads g snaps ∧
        Overlay.build g snaps = (.ok o, final) ∧ DistancesAddUp g o ∧ 0 < o.nodeCount) ∧
      contract g SpeedWeighting.carWithoutTurns.toWeighting = .ok h ∧
      HierarchyView.make h.routing (QueryGraph.ofOverlay g o)
        SpeedWeighting.carWithoutTurns.toWeighting = .ok v ∧
      v.routing.route 0 g.nodeCount = .ok (some p) ∧
      dijkstra (QueryGraph.ofOverlay g o)
        (QueryGraph.wrap o SpeedWeighting.carWithoutTurns.toWeighting) 0 g.nodeCount = some p' ∧
      p.weight = p'.weight := by
  have hbuilt := Splicing.built_cutRoad SpeedWeighting.openWord
  have hcount : (Splicing.cutRoad SpeedWeighting.openWord).nodeCount = 2 :=
    RoadGraph.nodeCount_oneRoad _ _ _ _ _
  have hd := nonnegDistances_cutRoad SpeedWeighting.openWord
  have hsnaps := Splicing.onRoads_cutRoad SpeedWeighting.openWord
  obtain ⟨o, final, hbuild, hspliced⟩ := Splicing.build_cutRoad SpeedWeighting.openWord
  have hsum := distancesAddUp_cutRoad hspliced
  have hpos := (Splicing.nodeCount_levelChain 0 hspliced.laid).1
  have hnodes : (Splicing.cutRoad SpeedWeighting.openWord).nodeCount ≤ UInt32.size := by
    rw [hcount]
    decide
  obtain ⟨h, hcontract, hview⟩ := view_route_eq_dijkstra hbuilt hnodes hd hsnaps hbuild hsum
    SpeedWeighting.carWithoutTurns rfl
  obtain ⟨v, hmake, hroutes⟩ := hview (fits_cutRoad hspliced hcontract)
  have hquery : (QueryGraph.ofOverlay (Splicing.cutRoad SpeedWeighting.openWord) o).nodeCount =
      (Splicing.cutRoad SpeedWeighting.openWord).nodeCount + o.nodeCount := rfl
  obtain ⟨r, hroute, heq⟩ := hroutes 0 (Splicing.cutRoad SpeedWeighting.openWord).nodeCount
    (by omega) (by omega)
  -- The first piece of the road is a walk of finite weight.
  obtain ⟨cs, hm⟩ := Overlay.measured_of_build hbuilt.wellFormed hsnaps hbuild hd
  have hreadable := (QueryGraph.sound_of_build hbuilt.wellFormed hbuild).readable
  obtain ⟨x, hstep⟩ := edgeStep_cutRoad hspliced
  obtain ⟨p', hp'⟩ := exists_path_of_step hreadable
    (hm.nonnegWeights SpeedWeighting.carWithoutTurns) rfl hstep
  rw [hp'] at heq
  obtain ⟨p, rfl, hp⟩ := Option.map_eq_some_iff.1 heq
  exact ⟨_, _, final, o, h, v, p, p', ⟨hbuilt, hnodes, hd, hsnaps, hbuild, hsum, hpos⟩, hcontract,
    hmake, hroute, hp', hp⟩

end RoadSplice

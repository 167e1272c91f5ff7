/-
  RoadSplice.Proofs.Hierarchy.Shortest — contraction preserves shortest paths.

  Walks of the graph climb and descend in the hierarchy, at no greater cost; what the search
  finds is made of open edges, and these unpack to roads.  So the search on a hierarchy answers
  with a shortest walk of the graph, or with nothing when there is no walk.
-/
import RoadSplice.Proofs.Hierarchy.Contracted
import RoadSplice.Proofs.Hierarchy.Route
import RoadSplice.Proofs.Hierarchy.Unpacked

namespace RoadSplice

open HierarchyEdge RoutingHierarchy

namespace Contracted

variable {g : RoadGraph Exact} {w : Weighting Exact} {h : Hierarchy Exact} {s t : NodeId}

/-! ## §1. The lists of a finished hierarchy. -/

theorem mem_outEdges (hc : Contracted g w h) {n : NodeId} {e : HierarchyEdge Exact} :
    e ∈ h.outEdges n ↔ Open h.edges e ∧ e.base = n := by
  show e ∈ listedAt h.tables.1 n ↔ _
  rw [hc.mirrors.mem_out]
  constructor
  · rintro ⟨f, hf, hn, rfl⟩
    exact ⟨hf, hn⟩
  · rintro ⟨he, hn⟩
    exact ⟨e, he, hn, rfl⟩

theorem mem_inEdges (hc : Contracted g w h) {n : NodeId} {e : HierarchyEdge Exact} :
    e ∈ h.inEdges n ↔ Open h.edges e.reversed ∧ e.base = n := by
  show e ∈ listedAt h.tables.2 n ↔ _
  rw [hc.mirrors.mem_inc]
  constructor
  · rintro ⟨f, hf, hn, rfl⟩
    rw [reversed_reversed]
    exact ⟨hf, hn⟩
  · rintro ⟨he, hn⟩
    exact ⟨e.reversed, he, hn, (reversed_reversed e).symm⟩

/-- **What a side follows** are open edges, seen from the node. -/
theorem mem_sideEdges (hc : Contracted g w h) {forward : Bool} {n : NodeId}
    {e : HierarchyEdge Exact} : e ∈ h.routing.sideEdges forward n ↔
      Open h.edges (if forward then e else e.reversed) ∧ e.base = n := by
  cases forward with
  | true => exact hc.mem_outEdges
  | false => exact hc.mem_inEdges

theorem ends_lt (hc : Contracted g w h) {f : HierarchyEdge Exact} (hf : Open h.edges f) :
    f.base < g.nodeCount ∧ f.adj < g.nodeCount := hc.grown.ends_lt hc.roads hf.inTable

theorem routable (hc : Contracted g w h) : h.routing.Routable where
  node_based := rfl
  base_eq forward n e he := by
    cases forward with
    | true => exact (hc.mem_outEdges.1 he).2
    | false => exact (hc.mem_inEdges.1 he).2
  adj_lt forward n e he := by
    show e.adj < h.nodeCount
    rw [hc.nodeCount_eq]
    cases forward with
    | true => exact (hc.ends_lt (hc.mem_outEdges.1 he).1).2
    | false => exact (hc.ends_lt (hc.mem_inEdges.1 he).1).1
  nonneg forward n e he c hcost := by
    cases forward with
    | true => exact hc.grown.nonneg hc.nonneg (hc.mem_outEdges.1 he).1 hcost
    | false => exact hc.grown.nonneg hc.nonneg (hc.mem_inEdges.1 he).1 hcost

theorem open_of_travels (hc : Contracted g w h) {e : HierarchyEdge Exact}
    (he : h.routing.Travels e) : Open h.edges e := by
  obtain he | he := he
  · exact (hc.mem_outEdges.1 he).1
  · have hopen := (hc.mem_inEdges.1 he).1
    rwa [reversed_reversed] at hopen

/-! ## §2. From walks to meetings. -/

/-- A step up is a step of the forward side. -/
theorem climbStep_of_up (hc : Contracted g w h) {u v : NodeId} {c : ℝ}
    (hstep : UpStep h.edges h.level u v c) : h.routing.ClimbStep true u v c := by
  obtain ⟨f, hf, rfl, rfl, hcost, hlt⟩ := hstep
  refine ⟨f, hc.mem_outEdges.2 ⟨hf, rfl⟩, ?_, rfl, hcost⟩
  have hle : h.level f.base ≤ h.level f.adj := hlt.le
  simp [climbs, Hierarchy.routing, hle]

/-- A step down is a step of the backward side. -/
theorem climbStep_of_down (hc : Contracted g w h) {u v : NodeId} {c : ℝ}
    (hstep : DownStep h.edges h.level u v c) : h.routing.ClimbStep false u v c := by
  obtain ⟨f, hf, rfl, rfl, hcost, hlt⟩ := hstep
  refine ⟨f.reversed, hc.mem_inEdges.2 ⟨?_, rfl⟩, ?_, rfl, hcost⟩
  · rwa [reversed_reversed]
  · have hle : h.level f.adj ≤ h.level f.base := hlt.le
    simp [climbs, Hierarchy.routing, HierarchyEdge.reversed, hle]

theorem meets_of_upDown (hc : Contracted g w h) {x : ℝ} (hud : UpDown h.edges h.level s t x) :
    Meets h.routing s t x := by
  obtain ⟨m, a, b, hup, hdown, rfl⟩ := hud
  exact ⟨m, a, b, hup.mono hc.climbStep_of_up, hdown.mono hc.climbStep_of_down, rfl⟩

/-- **Walks over open edges** are matched by meetings. -/
theorem meets_of_walk (hc : Contracted g w h) {x : ℝ} (hw : Walk (OpenStep h.edges) s t x) :
    ∃ y, Meets h.routing s t y ∧ y ≤ x := by
  obtain ⟨y, hud, hle⟩ := UpDown.of_walk hc.leveled hw
  exact ⟨y, hc.meets_of_upDown hud, hle⟩

/-! ## §3. From edges to roads. -/

/-- **Open edges of the hierarchy unpack** to open roads. -/
theorem unpack_open (hc : Contracted g w h) {r : RoutingHierarchy Exact}
    (hlookup : ∀ i, i < h.edges.size → r.edge i none = h.edge i none) {f : HierarchyEdge Exact}
    (hf : Open h.edges f) {fuel : Nat} (hfuel : f.edge ≤ fuel) :
    ∃ parts, r.unpack fuel f = .ok parts ∧ Joined (·.base) (·.adj) f.base parts f.adj ∧
      (∀ p ∈ parts, Open (roadTable g w) p) ∧
      total (parts.map (·.weightForward)) = f.weightForward := by
  obtain ⟨p, ps, hunpack, hjoined, hopen, hsums⟩ := hc.grown.unpack hc.roads (fun i e he => by
    rw [hlookup i (Array.getElem?_eq_some_iff.1 he).1]
    simp [Hierarchy.edge, he, oriented]) hf
  exact ⟨p :: ps, hunpack fuel hfuel, hjoined, hopen, hsums.weight⟩

/-- **A chain of open edges unpacks** to a chain of open roads. -/
theorem unpack_chain (hc : Contracted g w h) {r : RoutingHierarchy Exact}
    (hlookup : ∀ i, i < h.edges.size → r.edge i none = h.edge i none)
    {es : List (HierarchyEdge Exact)} (hj : Joined (·.base) (·.adj) s es t)
    (hes : ∀ e ∈ es, Open h.edges e) :
    ∃ parts, es.mapM (fun e => r.unpack (e.edge + r.edgeCount + 1) e) = .ok parts ∧
      Joined (·.base) (·.adj) s parts.flatten t ∧
      (∀ p ∈ parts.flatten, Open (roadTable g w) p) ∧
      total (parts.flatten.map (·.weightForward)) = total (es.map (·.weightForward)) := by
  induction es generalizing s with
  | nil => exact ⟨[], rfl, hj, by simp, rfl⟩
  | cons e es ih =>
    obtain ⟨rfl, hj⟩ := hj
    obtain ⟨ps, hps, hjoined, hopen, hsum⟩ := hc.unpack_open hlookup (hes e (by simp))
      (Nat.le_succ_of_le (Nat.le_add_right e.edge r.edgeCount))
    obtain ⟨parts, hparts, hjoined', hopen', hsum'⟩ := ih hj fun e' he' => hes e' (by simp [he'])
    refine ⟨ps :: parts, ?_, hjoined.append hjoined', fun p hp => ?_, ?_⟩
    · rw [List.mapM_cons, hps, hparts]
      rfl
    · obtain hp | hp := List.mem_append.1 (List.flatten_cons ▸ hp)
      · exact hopen p hp
      · exact hopen' p hp
    · rw [List.flatten_cons, List.map_append, Exact.total_append, hsum, hsum', List.map_cons,
        Exact.total_cons]

end Contracted

/-! ## §4. Shortest paths. -/

section

variable {g : RoadGraph Exact} {w : SpeedWeighting Exact} {h : Hierarchy Exact} {s t : NodeId}

/-- Roads that a search may follow are open edges of the hierarchy, loops left out. -/
theorem openWalk_of_walk (hc : Contracted g w.toWeighting h) (hg : g.WellFormed)
    (hd : NonnegDistances g) {x : ℝ} (hw : Walk (EdgeStep g w.toWeighting) s t x) :
    ∃ y, Walk (OpenStep h.edges) s t y ∧ y ≤ x := by
  refine hw.dominated fun {u v c} hstep => ?_
  have hc0 := nonnegWeights hg hd w hstep
  obtain ⟨d, hoff, rfl, rfl, hcost⟩ := (edgeStep_iff hg).1 hstep
  by_cases hloop : d.base = d.adj
  · rw [← hloop]
    exact ⟨0, .nil _, hc0⟩
  · have hopen : Open h.edges (roadEdge w.toWeighting (g.view d)) :=
      hc.grown.open_of_road (open_roadTable.2 ⟨d, hoff, hloop, ⟨c, hcost⟩, rfl⟩)
    exact ⟨c, .single ⟨_, hopen, rfl, rfl, hcost⟩, le_rfl⟩

/-- Open roads in a row are a walk of the graph. -/
theorem exists_isWalk (hg : g.WellFormed) {es : List (HierarchyEdge Exact)}
    (hj : Joined (·.base) (·.adj) s es t) (hes : ∀ e ∈ es, Open (roadTable g w.toWeighting) e) :
    ∃ vs, IsWalk g s vs t ∧ es = vs.map (roadEdge w.toWeighting) := by
  induction es generalizing s with
  | nil => exact ⟨[], ⟨hj, by simp⟩, rfl⟩
  | cons e es ih =>
    obtain ⟨rfl, hj⟩ := hj
    obtain ⟨d, hoff, -, -, rfl⟩ := open_roadTable.1 (hes e (by simp))
    obtain ⟨vs, ⟨hjoined, hall⟩, rfl⟩ := ih hj fun e' he' => hes e' (by simp [he'])
    refine ⟨g.view d :: vs, ⟨⟨rfl, hjoined⟩, fun v hv => ?_⟩, rfl⟩
    obtain rfl | hv := List.mem_cons.1 hv
    · exact (RoadGraph.mem_edges hg).2 ⟨d, hoff, rfl, rfl⟩
    · exact hall v hv

/-- **An open edge of the hierarchy is a walk of the graph** at the same cost. -/
theorem walk_of_open (hc : Contracted g w.toWeighting h) (hg : g.WellFormed)
    {f : HierarchyEdge Exact} (hf : Open h.edges f) {c : ℝ} (hcost : f.weightForward = .real c) :
    Walk (EdgeStep g w.toWeighting) f.base f.adj c := by
  obtain ⟨parts, -, hjoined, hopen, hsum⟩ := hc.unpack_open (r := h.routing) (fun _ _ => rfl) hf
    (le_refl f.edge)
  obtain ⟨vs, hvs, rfl⟩ := exists_isWalk hg hjoined hopen
  refine (walk_iff_isWalk fun n v hv => (RoadGraph.adj_lt_of_mem_edges hg hv).1).2 ⟨vs, hvs, ?_⟩
  rw [← hcost, ← hsum, List.map_map]
  rfl

/-- The path along the roads of a walk. -/
theorem pathAlong_roads (s : NodeId) (x : Exact) (vs : List (EdgeView Exact)) :
    (pathAlong s x (vs.map (roadEdge w.toWeighting))).nodes = s :: vs.map (·.adj) ∧
      (pathAlong s x (vs.map (roadEdge w.toWeighting))).edges = vs.map (·.edge) := by
  simp only [pathAlong, List.map_map, List.filterMap_map]
  refine ⟨rfl, ?_⟩
  show vs.filterMap (fun v => some v.edge) = _
  rw [List.filterMap_eq_map']

/-- **Contraction preserves shortest paths**: on the hierarchy of a graph, the search finds
nothing exactly when no walk of finite weight leads to the target, and otherwise a shortest path
of the graph. -/
theorem contract_route_shortest (hg : g.Built) (hd : NonnegDistances g)
    (w : SpeedWeighting Exact) (hs : s < g.nodeCount) (ht : t < g.nodeCount) :
    ∃ h, contract g w.toWeighting = .ok h ∧
      (h.routing.route s t = .ok none ↔ ¬ Reachable g w.toWeighting s t) ∧
      (Reachable g w.toWeighting s t →
        ∃ p, h.routing.route s t = .ok (some p) ∧ ShortestPath g w.toWeighting s t p) := by
  have hwf := hg.wellFormed
  obtain ⟨h, hcontract, hc⟩ := contract_spec hwf hd w
  refine ⟨h, hcontract, ?_⟩
  have hcount : h.routing.nodeCount = g.nodeCount := hc.nodeCount_eq
  have hbase : ∀ n, ∀ v ∈ Network.edges g n, v.base = n := fun n v hv =>
    (RoadGraph.adj_lt_of_mem_edges hwf hv).1
  -- Every walk of finite weight is matched by a meeting of two climbs.
  have hmeets : ∀ us z, IsWalk g s us t → walkWeight w.toWeighting us = .real z →
      ∃ y, Meets h.routing s t y ∧ y ≤ z := fun us z hus hz => by
    obtain ⟨y, hy, hle⟩ := openWalk_of_walk hc hwf hd ((walk_iff_isWalk hbase).2 ⟨us, hus, hz⟩)
    obtain ⟨y', hy', hle'⟩ := hc.meets_of_walk hy
    exact ⟨y', hy', hle'.trans hle⟩
  by_cases hst : s = t
  · subst hst
    have hroute : h.routing.route s s = .ok (some (Path.single s)) := by
      simp [route, hc.routable.node_based, pure, Except.pure]
    have hreach : Reachable g w.toWeighting s s := ⟨[], ⟨rfl, by simp⟩, 0, by simp [walkWeight]⟩
    refine ⟨by simp [hroute, hreach], fun _ => ⟨_, hroute, ?_, ⟨0, Exact.zero_eq⟩, ?_⟩⟩
    · exact ⟨[], ⟨rfl, by simp⟩, rfl, rfl, by simp [Path.single, walkWeight]⟩
    · rintro us hus ⟨z, hz⟩
      rw [hz, Path.single, Exact.zero_eq, Exact.real_le_real]
      exact ((walk_iff_isWalk hbase).2 ⟨us, hus, hz⟩).nonneg (nonnegWeights hwf hd w)
  obtain ⟨hroute, hnone⟩ | ⟨es, z, hj, htravels, hsum, hmeet, hleast, hroute⟩ :=
    route_eq hc.routable (hcount ▸ hs) (hcount ▸ ht) hst
  · have hreach : ¬ Reachable g w.toWeighting s t := by
      rintro ⟨us, hus, z, hz⟩
      obtain ⟨y, hy, -⟩ := hmeets us z hus hz
      exact hnone y hy
    exact ⟨iff_of_true hroute hreach, fun hr => absurd hr hreach⟩
  · obtain ⟨parts, hparts, hjoined, hopen, htotal⟩ :=
      hc.unpack_chain (r := h.routing) (fun _ _ => rfl) hj fun e he => hc.open_of_travels (htravels e he)
    obtain ⟨vs, hvs, hviews⟩ := exists_isWalk hwf hjoined hopen
    have hweight : walkWeight w.toWeighting vs = .real z := by
      rw [← hsum, ← htotal, hviews, List.map_map]
      rfl
    rw [hparts, Except.map, hviews] at hroute
    have hreach : Reachable g w.toWeighting s t := ⟨vs, hvs, z, hweight⟩
    obtain ⟨hnodes, hedges⟩ := pathAlong_roads (w := w) s (.real z) vs
    refine ⟨by simp [hroute, hreach], fun _ => ⟨_, hroute, ?_, ⟨z, rfl⟩, ?_⟩⟩
    · exact ⟨vs, hvs, hnodes, hedges, hweight.symm⟩
    · rintro us hus ⟨z', hz'⟩
      obtain ⟨y, hy, hle⟩ := hmeets us z' hus hz'
      rw [hz']
      exact (hleast y hy).trans hle

end

/-! ## §5. One-way streets. -/

section

open SpeedWeighting (carWithoutTurns oneWayWord)
open RoadGraph (after wholeWord)

/-- A road of a graph, with the flag word of a one-way street. -/
noncomputable def oneWay (edge : EdgeId) (g : RoadGraph Exact) : RoadGraph Exact :=
  after (RoadGraph.assign (g.view ⟨edge, 0, 0, false⟩) wholeWord .ok (.along oneWayWord)) g

/-- **Three one-way streets**, each a metre long, around a block. -/
noncomputable def oneWayStreets : RoadGraph Exact := oneWay 2 (oneWay 1 (oneWay 0 oneWayRing))

theorem built_oneWayStreets : oneWayStreets.Built :=
  .assign _ _ _ _ (.assign _ _ _ _ (.assign _ _ _ _ built_oneWayRing))

theorem oneWayStreets_eq : oneWayStreets = { oneWayRing with
    words := #[.ofNat 64 oneWayWord, .ofNat 64 oneWayWord, .ofNat 64 oneWayWord] } := by
  obtain ⟨-, -, hwords⟩ := oneWayRing_eq
  have hstep : ∀ edge (g : RoadGraph Exact), edge < g.words.size → oneWay edge g =
      { g with words := g.words.setIfInBounds edge (.ofNat 64 oneWayWord) } :=
    fun edge g h => RoadGraph.after_assign_wholeWord _ h
  have hsize : oneWayRing.words.size = 3 := by rw [hwords]; rfl
  unfold oneWayStreets
  rw [hstep 0 _ (by simp [hsize]), hstep 1 _ (by simp [hsize]), hstep 2 _ (by simp [hsize])]
  simp [hwords]

/-- A street as it is stored. -/
theorem view_oneWayStreets {i : Nat} {r : Road Exact} (hr : oneWayRing.roads[i]? = some r) :
    (oneWayStreets.view ⟨i, r.a, r.b, false⟩).word = .ofNat 64 oneWayWord ∧
      (oneWayStreets.view ⟨i, r.a, r.b, false⟩).distance = .real 1 := by
  have hlt := (Array.getElem?_eq_some_iff.1 hr).1
  have hdistance : r.distance = 1 := by
    rw [oneWayRing_eq.2.1] at hr
    have hmem := Array.mem_of_getElem? hr
    simp only [List.mem_toArray, List.mem_cons, List.not_mem_nil, or_false] at hmem
    obtain rfl | rfl | rfl := hmem <;> rfl
  have hword : ∀ n : Nat, n < 3 → (#[.ofNat 64 oneWayWord, .ofNat 64 oneWayWord,
      .ofNat 64 oneWayWord] : Array Word)[n]? = some (.ofNat 64 oneWayWord) := by decide
  rw [oneWayRing_eq.2.1] at hlt
  rw [oneWayStreets_eq]
  refine ⟨congrArg (·.getD 0) (hword i hlt), ?_⟩
  show (oneWayRing.roads[i]?.map (·.distance)).getD 0 = _
  rw [hr]
  exact hdistance.trans Exact.one_eq

theorem oneWayRound_oneWayStreets : OneWayRound oneWayStreets carWithoutTurns.toWeighting := by
  have hfields : oneWayStreets.nodeCount = oneWayRing.nodeCount ∧
      oneWayStreets.roads = oneWayRing.roads := by
    have hkept : ∀ (g : RoadGraph Exact) words, { g with words := words }.nodeCount = g.nodeCount ∧
        { g with words := words }.roads = g.roads := fun _ _ => ⟨rfl, rfl⟩
    rw [oneWayStreets_eq]
    exact hkept _ _
  refine ⟨hfields.1.trans oneWayRing_eq.1, hfields.2.trans oneWayRing_eq.2.1,
    fun i r reverse hr => ?_⟩
  obtain ⟨hword, hdistance⟩ := view_oneWayStreets (hfields.2 ▸ hr)
  rw [carWithoutTurns.toWeighting_edgeWeight,
    SpeedWeighting.isReal_edgeWeight_oneWay hword ⟨1, hdistance⟩]
  show (false != reverse) = false ↔ _
  cases reverse <;> simp

theorem nonnegDistances_oneWayStreets : NonnegDistances oneWayStreets := by
  rw [oneWayStreets_eq]
  intro r hr
  have hmem : r ∈ oneWayRing.roads := hr
  rw [oneWayRing_eq.2.1] at hmem
  simp only [List.mem_toArray, List.mem_cons, List.not_mem_nil, or_false] at hmem
  obtain rfl | rfl | rfl := hmem <;> simp

/-- A street leads to the next node, so a path to the one behind it follows two of them at least. -/
theorem OneWayRound.two_le_edges {g : RoadGraph Exact} {w : SpeedWeighting Exact} {s t : NodeId}
    (hring : OneWayRound g w.toWeighting) (hg : g.WellFormed) {p : Path Exact}
    (hp : ShortestPath g w.toWeighting s t p) (hs : s < 3) (ht : t = (s + 2) % 3) :
    2 ≤ p.edges.length := by
  obtain ⟨vs, hvs, -, hedges, hweight⟩ := hp.walk
  rw [hedges, List.length_map]
  have hne : s ≠ t := by
    have haway : ∀ n : Nat, n < 3 → n ≠ (n + 2) % 3 := by omega
    exact ht ▸ haway s hs
  have hfar : t ≠ (s + 1) % 3 := by
    have haway : ∀ n : Nat, n < 3 → (n + 2) % 3 ≠ (n + 1) % 3 := by omega
    exact ht ▸ haway s hs
  match vs, hvs, hweight with
  | [], hvs, _ => exact absurd hvs.1 hne
  | [v], ⟨⟨hbase, hend⟩, hmem⟩, hweight =>
    have hfinite := hp.finite
    rw [hweight, walkWeight, List.map_singleton, Exact.isReal_total] at hfinite
    obtain ⟨d, hoff, -, rfl⟩ := (RoadGraph.mem_edges hg).1 (hmem v List.mem_cons_self)
    have hbase : d.base = s := hbase
    have hend : d.adj = t := hend
    have hopen := open_roadTable.2 ⟨d, hoff, fun heq => hne (hbase.symm.trans (heq.trans hend)),
      hfinite _ List.mem_cons_self, rfl⟩
    have hnext : d.adj = (d.base + 1) % 3 := (hring.next hopen).2
    exact absurd (hend.symm.trans (hbase ▸ hnext)) hfar
  | _ :: _ :: _, _, _ => simp

/-- **Around the block**: contraction adds a shortcut past the first node, and the route between its
ends is unpacked to two streets or more, on a shortest path. -/
theorem contract_route_shortest_oneWayStreets :
    ∃ h e p, (oneWayStreets.Built ∧ NonnegDistances oneWayStreets ∧
        e.base < oneWayStreets.nodeCount ∧ e.adj < oneWayStreets.nodeCount) ∧
      contract oneWayStreets carWithoutTurns.toWeighting = .ok h ∧
      (e ∈ h.edges ∧ e.isShortcut = true) ∧
      h.routing.route e.base e.adj = .ok (some p) ∧
      ShortestPath oneWayStreets carWithoutTurns.toWeighting e.base e.adj p ∧
      2 ≤ p.edges.length := by
  have hbuilt := built_oneWayStreets
  have hd := nonnegDistances_oneWayStreets
  have hring := oneWayRound_oneWayStreets
  obtain ⟨h, hcontract, hc⟩ := contract_spec hbuilt.wellFormed hd carWithoutTurns
  obtain ⟨e, he, hshortcut, hopen, hlt, hthird⟩ := hring.exists_shortcut hbuilt hcontract
  have hs : e.base < oneWayStreets.nodeCount := hring.nodeCount ▸ hlt
  have ht : e.adj < oneWayStreets.nodeCount := by
    rw [hring.nodeCount, hthird]
    exact Nat.mod_lt _ (by decide)
  obtain ⟨h', hcontract', -, hroute⟩ := contract_route_shortest hbuilt hd carWithoutTurns hs ht
  obtain rfl := Except.ok.inj (hcontract.symm.trans hcontract')
  -- The shortcut stands for a walk of the graph.
  obtain ⟨c, hcost⟩ := hopen.finite
  have hreach : Reachable oneWayStreets carWithoutTurns.toWeighting e.base e.adj :=
    (reachable_iff fun n v hv => (RoadGraph.adj_lt_of_mem_edges hbuilt.wellFormed hv).1).2
      ⟨c, walk_of_open hc hbuilt.wellFormed hopen hcost⟩
  obtain ⟨p, hp, hshortest⟩ := hroute hreach
  exact ⟨h, e, p, ⟨hbuilt, hd, hs, ht⟩, hcontract, ⟨he, hshortcut⟩, hp, hshortest,
    hring.two_le_edges hbuilt.wellFormed hshortest hlt hthird⟩

end

end RoadSplice

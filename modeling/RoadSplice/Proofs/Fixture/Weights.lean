/-
  RoadSplice.Proofs.Fixture.Weights — weights on the graph of a document.

  On a regular graph a car takes no negative time, whichever view of a road it takes and whether or
  not a heading speaks against it, and no turn costs less than nothing.  So every search ends.
-/
import RoadSplice.Proofs.Fixture.Regular
import RoadSplice.Proofs.Flags.Values

namespace RoadSplice

/-! ## §1. Weights that are not negative. -/

namespace SpeedWeighting

variable (w : SpeedWeighting Exact)

/-- A road of no negative length weighs nothing negative, marked or not. -/
theorem zero_le_edgeWeight (hcar : w.encoding = .registered)
    (hpenalty : 0 ≤ w.config.headingPenalty) {v : EdgeView Exact} (hdistance : 0 ≤ v.distance)
    (reverse : Bool) : 0 ≤ w.edgeWeight v reverse := by
  have hseconds : ∀ x, w.seconds? v reverse = some x → 0 ≤ x := by
    intro x hx
    unfold seconds? at hx
    dsimp only at hx
    split at hx
    · cases hx
    · rename_i hopen
      obtain rfl := Option.some.inj hx
      -- The speed is a number of steps of five kilometres per hour.
      obtain ⟨s, hs⟩ : (v.getDecimal w.encoding.speed reverse).IsReal := by
        rw [hcar]
        have hfive : (5 : Exact) = .real 5 := Exact.ofNat_eq 5
        exact ⟨_, congrArg (Scalar.decimal _ 0 * ·) hfive⟩
      rw [hs, Bool.or_eq_true, decide_eq_true_eq, Exact.zero_eq, Exact.real_le_real] at hopen
      have hpos : 0 < s := not_le.1 fun hle => hopen (.inr hle)
      rw [hs, Exact.ofScientific_eq, Exact.real_div s (by norm_num)]
      exact Exact.zero_le_div hdistance (by positivity)
  unfold edgeWeight
  cases hx : w.seconds? v reverse with
  | none => simp
  | some x =>
    show 0 ≤ if v.unfavored = true then x + w.config.headingPenalty else x
    split
    · exact Exact.zero_le_add (hseconds x hx) hpenalty
    · exact hseconds x hx

/-- No turn costs less than nothing. -/
theorem zero_le_turnWeight (hcost : 0 ≤ w.config.uTurnCost) {table : TurnTable Exact}
    (htable : w.turns = some table) (hturns : ∀ turn, 0 ≤ table.cost turn) (turn : Turn) :
    0 ≤ w.turnWeight turn := by
  unfold turnWeight turnSeconds
  rw [htable]
  split
  · split
    · exact hcost
    · exact hturns turn
  · rw [Exact.zero_eq]
    exact le_refl (0 : ℝ)

end SpeedWeighting

namespace RoadGraph

/-- A view that a graph hands out: at a node, or by its number. -/
def HandsOut (g : RoadGraph Exact) (v : EdgeView Exact) : Prop :=
  (∃ n, v ∈ Network.edges g n) ∨ ∃ edge adj, Network.edge g edge adj = .ok v

variable {g : RoadGraph Exact} {v : EdgeView Exact}

/-- **A view of a regular graph** has no negative length. -/
theorem Regular.distance (h : g.Regular) (hv : g.HandsOut v) : 0 ≤ v.distance := by
  have hview : ∀ d, 0 ≤ (g.view d).distance := by
    intro d
    show 0 ≤ (g.roads[d.edge]?.map (·.distance)).getD 0
    cases hr : g.roads[d.edge]? with
    | none =>
      rw [Option.map_none, Option.getD_none, Exact.zero_eq]
      exact le_refl (0 : ℝ)
    | some r => exact h.distances r (Array.mem_of_getElem? hr)
  obtain ⟨n, hv⟩ | ⟨edge, adj, hv⟩ := hv
  · obtain ⟨d, -, rfl⟩ := List.mem_map.1 (show v ∈ (g.directedEdges n).map g.view from hv)
    exact hview d
  · obtain ⟨d, -, rfl⟩ := except_map.1 (show (g.directedTo edge adj).map g.view = .ok v from hv)
    exact hview d

end RoadGraph

/-! ## §2. Searching the graph of a document. -/

/-- **A document of regular numbers can be searched.**  On its graph, with its table of turns, every
weight of an edge or a turn is at least zero, where an infinite one closes the edge or the turn; and
the search between any two nodes ends. -/
theorem regular_document_searchable {f : Fixture Exact} (hf : f.Regular) {g : RoadGraph Exact}
    {car : VehicleEncoding Exact} (hbuild : f.build = .ok (g, car)) {config : WeightingConfig Exact}
    (hpenalty : 0 ≤ config.headingPenalty) (hcost : 0 ≤ config.uTurnCost) :
    let w : SpeedWeighting Exact := ⟨car, config, some g.turns⟩
    (∀ v, g.HandsOut v → ∀ marked reverse,
        0 ≤ w.edgeWeight { v with unfavored := marked } reverse) ∧
      (∀ turn, 0 ≤ w.turnWeight turn) ∧
      ∀ s t, Search.Ends g w.toWeighting s t := by
  intro w
  have hg : g.Regular := hf.build hbuild
  have hcar : car = .registered := (Fixture.build_eq_ok.1 hbuild).1
  have hturns : ∀ turn, 0 ≤ w.turnWeight turn := w.zero_le_turnWeight hcost rfl hg.turns
  refine ⟨fun v hv marked reverse => ?_, hturns, fun s t => ?_⟩
  · have hdistance : 0 ≤ v.distance := hg.distance hv
    exact w.zero_le_edgeWeight hcar hpenalty (v := { v with unfavored := marked }) hdistance reverse
  · have hfound : ∀ n, ∀ v ∈ Network.edges g n, Network.edge g v.edge (some v.adj) = .ok v := by
      intro n v hv
      obtain ⟨d, hd, -, rfl⟩ := (RoadGraph.mem_edges hg.wellFormed).1 hv
      exact RoadGraph.edge_of_offers hd
    refine Search.ends hg.wellFormed.readable hfound (nonnegWeights hg.wellFormed hg.distances w)
      (fun turn c hc => ?_) s t
    -- A turn that costs a number costs at least zero; a closed one costs none.
    have hle := hturns turn
    rw [show w.turnWeight turn = .real c from hc, Exact.zero_eq, Exact.real_le_real] at hle
    exact hle

/-- Two nodes on the equator, an open road of a given length between them, and a turn back that
costs a second. -/
noncomputable def thereAndBack : Fixture Exact :=
  { elevation := false
    nodes := [⟨.real 0, .real 0, none⟩, ⟨.real 0, .real 1, none⟩]
    edges := [⟨0, 1, [], "", .real 60, false, .other, some (.real 1000)⟩]
    turns := [⟨⟨0, 1, 0⟩, some (.real 1)⟩] }

theorem toPoint_of_onGlobe {x y : ℝ} (hx : -90 ≤ x ∧ x ≤ 90) (hy : -180 ≤ y ∧ y ≤ 180) :
    (⟨.real x, .real y, none⟩ : PointFixture Exact).toPoint false =
      .ok (Point.flat (.real x) (.real y)) := by
  have hnum : ∀ n : Nat, (OfNat.ofNat n : Exact) = .real n := Exact.ofNat_eq
  unfold PointFixture.toPoint Scalar.within
  rw [hnum 90, hnum 180]
  simp [hx, hy]

theorem toRaw_sixty :
    (VehicleEncoding.registered : VehicleEncoding Exact).speed.toRaw (.real 60) = .ok 12 := by
  have hfive : (5 : Exact) = .real 5 := Exact.ofNat_eq 5
  have hround : Scalar.round (Exact.real 60 / (5 : Exact)) = Exact.real 12 := by
    rw [hfive, Exact.real_div 60 (by norm_num)]
    show Exact.real (roundAway _) = _
    unfold roundAway
    norm_num
  have hmax : (⟨"car_average_speed", 5, 2, some 7⟩ : IntProperty).maxValue = 31 := by decide
  have hcount : Scalar.count (Exact.real 12) = 12 := by
    show min ⌊(12 : ℝ)⌋₊ Exact.greatestCount = 12
    rw [Nat.floor_ofNat]
    decide
  unfold DecimalProperty.toRaw VehicleEncoding.registered
  dsimp only
  rw [hround, hmax, hcount, if_neg]
  simp only [Exact.isFinite_real, Exact.zero_eq, Exact.decimal_eq, Exact.real_lt_real]
  norm_num

theorem inOrder_thereAndBack : thereAndBack.InOrder where
  nodes p hp := by
    obtain rfl | hp := List.mem_cons.1 hp
    · exact ⟨_, toPoint_of_onGlobe (by norm_num) (by norm_num)⟩
    · obtain rfl := List.mem_singleton.1 hp
      exact ⟨_, toPoint_of_onGlobe (by norm_num) (by norm_num)⟩
  roads e he := by
    obtain rfl := List.mem_singleton.1 he
    exact ⟨by decide, by decide, fun p hp => absurd hp List.not_mem_nil, 12, toRaw_sixty⟩
  turns t ht := by
    obtain rfl := List.mem_singleton.1 ht
    exact ⟨by decide, by decide⟩

/-- **What the graph of there and back holds**: two nodes and an open road between them. -/
structure RoadGraph.ThereAndBack (g : RoadGraph Exact) : Prop where
  nodes : g.nodes = #[Point.flat (.real 0) (.real 0), Point.flat (.real 0) (.real 1)]
  roads : g.roads = #[⟨0, 1, .real 1000, ⟨[], false⟩, ""⟩]
  is3d : g.is3d = false
  accessible : VehicleEncoding.registered.accessible (g.view ⟨0, 0, 1, false⟩) = true
  word : g.word 0 = BitVec.ofNat 64 SpeedWeighting.openWord

/-- Edits that are carried out one after the other, up to the numbers of the document. -/
theorem build_thereAndBack :
    ∃ g, thereAndBack.build = .ok (g, .registered) ∧ g.ThereAndBack := by
  have hstart : (⟨.real 0, .real 0, none⟩ : PointFixture Exact).toPoint false =
      .ok (Point.flat (.real 0) (.real 0)) := toPoint_of_onGlobe (by norm_num) (by norm_num)
  have hfinish : (⟨.real 0, .real 1, none⟩ : PointFixture Exact).toPoint false =
      .ok (Point.flat (.real 0) (.real 1)) := toPoint_of_onGlobe (by norm_num) (by norm_num)
  have hedits : ∃ g : RoadGraph Exact,
      (thereAndBack.edits .registered).run.run (.empty false) = (.ok (), g) ∧ g.ThereAndBack := by
    simp only [Fixture.edits, thereAndBack, Fixture.placeNodes, hstart, hfinish,
      List.forM_eq_forM, List.forM_cons, List.forM_nil, Fixture.addRoad, RoadGraph.setDecimal,
      RoadGraph.assign, toRaw_sixty]
    exact ⟨_, rfl, rfl, rfl, rfl, rfl, rfl⟩
  obtain ⟨g, hrun, hg⟩ := hedits
  exact ⟨g, Fixture.build_eq_ok.2 ⟨rfl, hrun⟩, hg⟩

theorem regular_thereAndBack : thereAndBack.Regular where
  distances e he d hd := by
    obtain rfl := List.mem_singleton.1 he
    obtain rfl := Option.some.inj hd
    rw [Exact.zero_eq, Exact.real_le_real]
    norm_num
  costs t ht c hc := by
    obtain rfl := List.mem_singleton.1 ht
    obtain rfl := Option.some.inj hc
    rw [Exact.zero_eq, Exact.real_le_real]
    norm_num
  nodeElevations h := by cases h
  pillarElevations h := by cases h

/-- There and back by car. -/
theorem regular_document_searchable_thereAndBack :
    (thereAndBack.Regular ∧ 0 ≤ (WeightingConfig.car : WeightingConfig Exact).headingPenalty ∧
      0 ≤ (WeightingConfig.car : WeightingConfig Exact).uTurnCost) ∧
    ∃ g car, thereAndBack.build = .ok (g, car) ∧
      ∀ s t, Search.Ends g (SpeedWeighting.toWeighting ⟨car, .car, some g.turns⟩) s t := by
  have hpenalty : 0 ≤ (WeightingConfig.car : WeightingConfig Exact).headingPenalty := by
    show (0 : Exact) ≤ 300
    rw [Exact.zero_eq, show (300 : Exact) = .real 300 from Exact.ofNat_eq 300, Exact.real_le_real]
    norm_num
  have hcost : 0 ≤ (WeightingConfig.car : WeightingConfig Exact).uTurnCost := by
    show (0 : Exact) ≤ 40
    rw [Exact.zero_eq, show (40 : Exact) = .real 40 from Exact.ofNat_eq 40, Exact.real_le_real]
    norm_num
  obtain ⟨g, car, hbuild⟩ := thereAndBack.build_isOk_iff.2 inOrder_thereAndBack
  obtain ⟨-, -, hends⟩ := regular_document_searchable regular_thereAndBack hbuild hpenalty hcost
  exact ⟨⟨regular_thereAndBack, hpenalty, hcost⟩, g, car, hbuild, hends⟩

end RoadSplice

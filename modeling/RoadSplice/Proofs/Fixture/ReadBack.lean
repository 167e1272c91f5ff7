/-
  RoadSplice.Proofs.Fixture.ReadBack — documents in exact numbers, and what their graphs say.

  Over exact numbers the checks of a document are plain: positions lie between the poles and within
  half a turn of the first meridian, and a speed is a whole number of steps, rounded, from none to
  thirty-one.  What has been written for a node, a road or a turn is then read back: each property
  from its own bits of the flag word, each turn from its last entry.
-/
import RoadSplice.Proofs.Fixture.Accepted
import RoadSplice.Proofs.Flags.Quantised

namespace RoadSplice

open Exact

/-! ## §1. Checks in exact numbers. -/

/-- **A position on the globe.** -/
structure PointFixture.OnGlobe (p : PointFixture Exact) : Prop where
  lat : ∃ lat, p.lat = real lat ∧ -90 ≤ lat ∧ lat ≤ 90
  lon : ∃ lon, p.lon = real lon ∧ -180 ≤ lon ∧ lon ≤ 180

/-- **A speed that can be stored**: rounded to steps of five, halves away from zero, it is a number
of steps that fits into five bits. -/
structure EdgeFixture.SpeedFits (e : EdgeFixture Exact) : Prop where
  steps : ∃ s, e.speed = real s ∧ 0 ≤ roundAway (s / 5) ∧ roundAway (s / 5) ≤ 31

namespace Fixture

/-- **What a document has to be**, in the order in which it is looked at: nodes, roads (ends, inner
points, speed), turns. -/
def requirements (f : Fixture Exact) : List (Check Exact) :=
  f.inspect (fun p => ⟨p.OnGlobe, .coordinateOutOfRange p.lat p.lon⟩)
    fun e => ⟨e.SpeedFits, .propertyValueOutOfRange "car_average_speed" e.speed (real 155)⟩

end Fixture

/-- The check of a position is whether it lies on the globe. -/
theorem PointFixture.check_eq (p : PointFixture Exact) :
    p.check = ⟨p.OnGlobe, .coordinateOutOfRange p.lat p.lon⟩ := by
  have hninety : (90 : Exact) = real 90 := ofNat_eq 90
  have hhalf : (180 : Exact) = real 180 := ofNat_eq 180
  have hholds : p.check.holds = p.OnGlobe := by
    unfold PointFixture.check
    rw [Bool.and_eq_true, hninety, hhalf, real_neg, real_neg, within_iff, within_iff]
    apply propext
    constructor
    · intro h
      exact ⟨h.1, h.2⟩
    · intro h
      exact ⟨h.lat, h.lon⟩
  rw [← hholds]
  rfl

theorem maxValue_speed : (VehicleEncoding.registered : VehicleEncoding Exact).speed.maxValue =
    real 155 := by
  have hmax : (⟨"car_average_speed", 5, 2, some 7⟩ : IntProperty).maxValue = 31 := by decide
  have hfive : (5 : Exact) = real 5 := ofNat_eq 5
  unfold DecimalProperty.maxValue VehicleEncoding.registered
  dsimp only
  rw [hmax, hfive, decimal_eq, real_mul]
  norm_num

/-- The number of steps of a speed. -/
theorem round_speed (s : ℝ) : Scalar.round
    (real s / (VehicleEncoding.registered : VehicleEncoding Exact).speed.factor) =
      real (roundAway (s / 5)) := by
  have hfive : (VehicleEncoding.registered : VehicleEncoding Exact).speed.factor = real 5 :=
    ofNat_eq 5
  rw [hfive]
  exact DecimalProperty.round_steps (by norm_num) s

/-- **A speed is stored** exactly when it fits. -/
theorem EdgeFixture.speed_isOk_iff (e : EdgeFixture Exact) :
    (∃ n, (VehicleEncoding.registered : VehicleEncoding Exact).speed.toRaw e.speed = .ok n) ↔
      e.SpeedFits := by
  have hmax : (VehicleEncoding.registered : VehicleEncoding Exact).speed.int.maxValue = 31 := by
    decide
  rw [DecimalProperty.exists_toRaw_iff (by norm_num) (ofNat_eq 5), hmax]
  constructor
  · rintro ⟨s, hs, k, hk, hlow, hhigh⟩
    rw [← nearestAway_iff.1 hk] at hlow hhigh
    exact ⟨s, hs, hlow, hhigh⟩
  · rintro ⟨s, hs, hlow, hhigh⟩
    exact ⟨s, hs, roundAway (s / 5), nearestAway_iff.2 rfl, hlow, hhigh⟩

theorem EdgeFixture.speedCheck_eq (e : EdgeFixture Exact) : e.speedCheck =
    ⟨e.SpeedFits, .propertyValueOutOfRange "car_average_speed" e.speed (real 155)⟩ := by
  rw [← maxValue_speed, ← e.speed_isOk_iff]
  rfl

theorem Fixture.checks_eq_requirements (f : Fixture Exact) : f.checks = f.requirements := by
  unfold checks requirements
  rw [funext PointFixture.check_eq, funext EdgeFixture.speedCheck_eq]

/-! ## §2. Flag words. -/

namespace EdgeFixture

open IntProperty (read_write_self read_write_of_apart)

/-- **A road is open forwards**, and backwards unless it is a one-way road. -/
theorem read_access (e : EdgeFixture Exact) (opposite : Bool) :
    (VehicleEncoding.registered : VehicleEncoding Exact).access.read opposite e.word =
      !(opposite && e.oneway) := by
  unfold BoolProperty.read word
  dsimp only
  -- Road class and speed lie behind the bits of access.
  rw [read_write_of_apart (.inr (by cases opposite <;> decide)),
    read_write_of_apart (.inr (by cases opposite <;> decide)),
    read_write_of_apart (.inr (by cases opposite <;> decide))]
  cases opposite with
  | false =>
    rw [read_write_of_apart (.inr (by decide)), read_write_self (by decide)]
    rfl
  | true =>
    rw [read_write_self (by decide)]
    cases e.oneway <;> rfl

/-- Both speeds are the one that is given, in steps. -/
theorem read_speed (e : EdgeFixture Exact) (opposite : Bool) :
    (VehicleEncoding.registered : VehicleEncoding Exact).speed.int.read opposite e.word =
      e.steps % 2 ^ 5 := by
  unfold word
  dsimp only
  rw [read_write_of_apart (.inr (by cases opposite <;> decide))]
  cases opposite with
  | false =>
    rw [read_write_of_apart (.inr (by decide)), read_write_self (by decide)]
    rfl
  | true =>
    rw [read_write_self (by decide)]
    rfl

/-- The road class is read alike both ways. -/
theorem read_roadClass (e : EdgeFixture Exact) (opposite : Bool) :
    (VehicleEncoding.registered : VehicleEncoding Exact).roadClass.read opposite e.word =
      e.roadClass := by
  have hself : (VehicleEncoding.registered : VehicleEncoding Exact).roadClass.int.read opposite
      e.word = Enumerated.ordinal e.roadClass % 2 ^ 4 := by
    cases opposite <;> exact read_write_self (by decide) _ _
  unfold EnumProperty.read
  rw [hself, Nat.mod_eq_of_lt (RoadClass.ordinal_lt _), RoadClass.ofOrdinal_ordinal]

end EdgeFixture

/-- **A speed that fits** reads as its number of steps, five kilometres per hour each. -/
theorem EdgeFixture.read_speed_real (e : EdgeFixture Exact) {s : ℝ} (hs : e.speed = real s)
    (hlow : 0 ≤ roundAway (s / 5)) (hhigh : roundAway (s / 5) ≤ 31) (opposite : Bool) :
    (VehicleEncoding.registered : VehicleEncoding Exact).speed.read opposite e.word =
      real (5 * roundAway (s / 5)) := by
  obtain ⟨n, hn⟩ : ∃ n : Nat, roundAway (s / 5) = n := Int.eq_ofNat_of_zero_le hlow
  have hle : n ≤ 31 := by omega
  have hfive : (5 : Exact) = real 5 := ofNat_eq 5
  have hsteps : e.steps = n := by
    have hcount : e.steps = min ⌊(n : ℝ)⌋₊ greatestCount := by
      unfold steps
      rw [hs, round_speed, hn, Int.cast_natCast]
      rfl
    rw [hcount, Nat.floor_natCast]
    exact Nat.min_eq_left (Nat.le_trans hle (by decide))
  have hread : (VehicleEncoding.registered : VehicleEncoding Exact).speed.read opposite e.word =
      Scalar.decimal ((VehicleEncoding.registered : VehicleEncoding Exact).speed.int.read opposite
        e.word) 0 * 5 := rfl
  rw [hread, e.read_speed, hsteps, Nat.mod_eq_of_lt (by omega), hfive, hn, Int.cast_natCast,
    decimal_eq, real_mul, pow_zero, div_one, mul_comm]

/-! ## §3. Turns. -/

namespace Fixture

variable {K : Type} [Scalar K]

/-- **A turn that is not listed** costs what it cost before. -/
theorem cost_foldl_enter {turn : Turn} (table : TurnTable K) {ts : List (TurnFixture K)}
    (h : ∀ t ∈ ts, t.turn ≠ turn) : (ts.foldl enter table).cost turn = table.cost turn := by
  induction ts generalizing table with
  | nil => rfl
  | cons t ts ih =>
    obtain ⟨ht, hts⟩ := List.forall_mem_cons.1 h
    rw [List.foldl_cons, ih _ hts, enter, TurnTable.cost_set, if_neg ht]

/-- **The last entry of a turn** decides what it costs. -/
theorem cost_foldl_enter_last (table : TurnTable K) (before after : List (TurnFixture K))
    (t : TurnFixture K) (h : ∀ t' ∈ after, t'.turn ≠ t.turn) :
    ((before ++ t :: after).foldl enter table).cost t.turn = t.cost.getD Scalar.infinity := by
  rw [List.foldl_append, List.foldl_cons, cost_foldl_enter _ h, enter, TurnTable.cost_set,
    if_pos rfl]

end Fixture

/-! ## §4. Documents read back. -/

/-- **A road that is read back** from its view: where it leads, its points, and all that its entry
says about it. -/
structure EdgeFixture.ReadBack (f : Fixture Exact) (car : VehicleEncoding Exact)
    (e : EdgeFixture Exact) (v : EdgeView Exact) : Prop where
  base : v.base = e.source
  adj : v.adj = e.target
  stored : v.reverse = false
  geometry : ∃ a b, f.nodes[e.source]? = some a ∧ f.nodes[e.target]? = some b ∧
    v.geometry .all =
      { points := (a.placed f.elevation :: e.pillars.map (·.placed f.elevation)) ++
          [b.placed f.elevation]
        is3d := f.elevation }
  forwards : v.getBool car.access false = true
  backwards : v.getBool car.access true = !e.oneway
  speed : ∃ s, e.speed = real s ∧
    ∀ opposite, v.getDecimal car.speed opposite = real (5 * roundAway (s / 5))
  roadClass : ∀ opposite, v.getEnum car.roadClass opposite = e.roadClass
  name : v.name = e.name
  distance : v.distance = e.distance.getD (Geo.lengthOf (v.geometry .all))

namespace Fixture

/-- **A valid document**: positions lie on the globe, roads end at nodes and have speeds that can be
stored, and turns are between roads. -/
structure Valid (f : Fixture Exact) : Prop where
  nodes : ∀ p ∈ f.nodes, p.OnGlobe
  ends : ∀ e ∈ f.edges, e.source < f.nodes.length ∧ e.target < f.nodes.length
  pillars : ∀ e ∈ f.edges, ∀ p ∈ e.pillars, p.OnGlobe
  speeds : ∀ e ∈ f.edges, e.SpeedFits
  turns : ∀ t ∈ f.turns, t.turn.inEdge < f.edges.length ∧ t.turn.outEdge < f.edges.length

/-- **A graph that reads back as a document**: nodes and roads by their places in their lists, and
turns by their last entries. -/
structure ReadBack (f : Fixture Exact) (g : RoadGraph Exact) (car : VehicleEncoding Exact) :
    Prop where
  nodes : ∀ i : Nat, g.nodes[i]? = f.nodes[i]?.map (·.placed f.elevation)
  nodeCount : g.nodeCount = f.nodes.length
  edges : ∀ j e, f.edges[j]? = some e →
    ∃ v, g.edge j none = .ok v ∧ v.edge = j ∧ e.ReadBack f car v
  edgeCount : g.edgeCount = f.edges.length
  listed : ∀ before t after, f.turns = before ++ t :: after → (∀ t' ∈ after, t'.turn ≠ t.turn) →
    g.turns.cost t.turn = t.cost.getD (infinite false)
  unlisted : ∀ turn, (∀ t ∈ f.turns, t.turn ≠ turn) → g.turns.cost turn = 0

theorem allHold_requirements_iff (f : Fixture Exact) : AllHold f.requirements ↔ f.Valid := by
  rw [requirements, allHold_inspect]
  constructor
  · rintro ⟨hnodes, hroads, hturns⟩
    exact ⟨hnodes, fun e he => (hroads e he).1, fun e he => (hroads e he).2.1,
      fun e he => (hroads e he).2.2, hturns⟩
  · intro h
    exact ⟨h.nodes, fun e he => ⟨h.ends e he, h.pillars e he, h.speeds e he⟩, h.turns⟩

/-- The view of a road of a valid document. -/
theorem readBack_view {f : Fixture Exact} (hvalid : f.Valid) {g : RoadGraph Exact}
    (hg : g.stripped = f.drawn) {j : Nat} {e : EdgeFixture Exact} (hj : f.edges[j]? = some e) :
    e.ReadBack f .registered (g.view ⟨j, e.source, e.target, false⟩) := by
  obtain ⟨hdim, hnodes, hroads, hwords, -⟩ := stripped_eq_sketch.1 hg
  have he : e ∈ f.edges := List.mem_of_getElem? hj
  obtain ⟨hsource, htarget⟩ := hvalid.ends e he
  have hroad : g.roads[j]? = some (e.road f.elevation f.points) := by simp [hroads, hj]
  have hword : g.word j = e.word := by simp [RoadGraph.word, hwords, hj]
  -- The shape of the view is the one that was measured.
  have hshape : (g.view ⟨j, e.source, e.target, false⟩).geometry .all =
      e.shape f.elevation f.points := by
    show g.fullGeometry j false = _
    unfold RoadGraph.fullGeometry EdgeFixture.shape
    rw [hroad, hdim, hnodes]
    simp [EdgeFixture.road]
  have hname : (g.view ⟨j, e.source, e.target, false⟩).name = e.name := by
    show (g.roads[j]?.map (·.name)).getD "" = _
    rw [hroad]
    rfl
  have hdistance : (g.view ⟨j, e.source, e.target, false⟩).distance =
      e.distance.getD (Geo.lengthOf (e.shape f.elevation f.points)) := by
    show (g.roads[j]?.map (·.distance)).getD 0 = _
    rw [hroad]
    rfl
  obtain ⟨s, hs, hlow, hhigh⟩ := hvalid.speeds e he
  exact
    { base := rfl
      adj := rfl
      stored := rfl
      geometry := by
        refine ⟨f.nodes[e.source], f.nodes[e.target], List.getElem?_eq_getElem hsource,
          List.getElem?_eq_getElem htarget, hshape.trans ?_⟩
        simp [EdgeFixture.shape, points, hsource, htarget]
      forwards := by
        show BoolProperty.read _ false (g.word j) = _
        rw [hword, e.read_access]
        rfl
      backwards := by
        show BoolProperty.read _ true (g.word j) = _
        rw [hword, e.read_access]
        rfl
      speed := by
        refine ⟨s, hs, fun opposite => ?_⟩
        show DecimalProperty.read _ (false != opposite) (g.word j) = _
        rw [hword, e.read_speed_real hs hlow hhigh]
      roadClass := by
        intro opposite
        show EnumProperty.read _ (false != opposite) (g.word j) = _
        rw [hword, e.read_roadClass]
      name := hname
      distance := by rw [hdistance, hshape] }

/-- **What the graph of a valid document holds** is read back from it. -/
theorem readBack_of_drawn {f : Fixture Exact} (hvalid : f.Valid) {g : RoadGraph Exact}
    (hg : g.stripped = f.drawn) : f.ReadBack g .registered := by
  obtain ⟨-, hnodes, hroads, -, hturns⟩ := stripped_eq_sketch.1 hg
  constructor
  case nodes =>
    intro i
    show g.nodes[i]? = _
    rw [hnodes, List.getElem?_toArray, points, List.getElem?_map]
  case nodeCount =>
    show g.nodes.size = _
    rw [hnodes, List.size_toArray, points, List.length_map]
  case edges =>
    intro j e hj
    refine ⟨g.view ⟨j, e.source, e.target, false⟩, ?_, rfl, readBack_view hvalid hg hj⟩
    -- A road that is asked for without a node comes in its stored direction.
    have hroad : g.roads[j]? = some (e.road f.elevation f.points) := by simp [hroads, hj]
    show (g.directedTo j none).map g.view = _
    unfold RoadGraph.directedTo
    rw [hroad]
    rfl
  case edgeCount =>
    show g.roads.size = _
    rw [hroads, List.size_toArray, List.length_map]
  case listed =>
    intro before t after hsplit hlast
    -- Of several entries for one turn the last one counts.
    rw [hturns, hsplit, cost_foldl_enter_last _ _ _ _ hlast]
    rfl
  case unlisted =>
    intro turn hturn
    rw [hturns, cost_foldl_enter _ hturn, TurnTable.cost_empty]

/-- **Building a document**, in exact numbers.  It succeeds exactly when the document is valid, it
fails with the first thing that is wrong, and the graph that it makes reads back as the document. -/
theorem built_exactly_when_valid (f : Fixture Exact) :
    ((∃ g car, f.build = .ok (g, car)) ↔ f.Valid) ∧
      (∀ e, f.build = .error e ↔ FirstViolation f.requirements e) ∧
      ∀ g car, f.build = .ok (g, car) → f.ReadBack g car := by
  have hcases := f.build_cases
  rw [f.checks_eq_requirements] at hcases
  -- The checks are run in the order of the requirements: all of them hold, or one is the first that
  -- does not.
  obtain ⟨hall, g, hbuild, hdrawn⟩ | ⟨e, hfirst, hbuild⟩ := hcases
  · have hvalid : f.Valid := f.allHold_requirements_iff.1 hall
    refine ⟨iff_of_true ⟨g, _, hbuild⟩ hvalid, fun e => ?_, fun g' car hbuild' => ?_⟩
    · rw [hbuild]
      exact iff_of_false (fun h => nomatch h) fun hfirst => hfirst.not_allHold hall
    · rw [hbuild] at hbuild'
      obtain ⟨rfl, rfl⟩ := Prod.mk.inj (Except.ok.inj hbuild')
      exact readBack_of_drawn hvalid hdrawn
  · rw [hbuild]
    refine ⟨iff_of_false ?_ ?_, fun e' => ⟨?_, ?_⟩, fun g car hbuild' => nomatch hbuild'⟩
    · rintro ⟨g, car, ⟨⟩⟩
    · intro hvalid
      exact hfirst.not_allHold (f.allHold_requirements_iff.2 hvalid)
    · rintro ⟨⟩
      exact hfirst
    · intro hfirst'
      rw [hfirst.unique hfirst']

end Fixture

end RoadSplice

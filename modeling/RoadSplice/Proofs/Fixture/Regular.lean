/-
  RoadSplice.Proofs.Fixture.Regular — graphs of documents whose numbers are in order.

  What a document gives goes into the graph as it is, and what it does not give is measured.  Where
  no given length or cost is negative and no elevation is infinite, every edit keeps the graph
  *regular*: its positions are finite, and neither its roads nor its turns cost less than nothing.
  Weights are then not negative, so every search on the graph ends.
-/
import RoadSplice.Proofs.Fixture.Built
import RoadSplice.Proofs.Query.Opened
import RoadSplice.Proofs.Search.Ending

namespace RoadSplice

open RoadGraph (after)

/-! ## §1. Regular graphs. -/

namespace RoadGraph

/-- **A regular graph**: its positions are finite, and neither its roads nor its turns cost less
than nothing. -/
structure Regular (g : RoadGraph Exact) : Prop where
  wellFormed : g.WellFormed
  nodes : ∀ p ∈ g.nodes, p.Finite
  pillars : ∀ r ∈ g.roads, ∀ p ∈ r.pillars.points, p.Finite
  distances : NonnegDistances g
  turns : ∀ turn, 0 ≤ g.turns.cost turn

theorem finite_flat (x y : ℝ) : (Point.flat (.real x) (.real y) : Point Exact).Finite :=
  ⟨⟨x, rfl⟩, ⟨y, rfl⟩, fun n h => by cases h⟩

theorem finite_origin : (origin : Point Exact).Finite := by
  unfold origin
  rw [Exact.zero_eq]
  exact finite_flat 0 0

variable {g : RoadGraph Exact}

theorem regular_empty (is3d : Bool) : (empty is3d : RoadGraph Exact).Regular where
  wellFormed := wellFormed_empty is3d
  nodes p hp := by simp [empty] at hp
  pillars r hr := by simp [empty] at hr
  distances r hr := by simp [empty] at hr
  turns turn := by
    show 0 ≤ TurnTable.empty.cost turn
    rw [TurnTable.cost_empty, Exact.zero_eq]
    exact le_refl (0 : ℝ)

/-- **The full shape of a road** runs over finite positions. -/
theorem Regular.geometry (h : g.Regular) (edge : EdgeId) (reverse : Bool) :
    ∀ p ∈ (g.fullGeometry edge reverse).points, p.Finite :=
  forall_fullGeometry finite_origin h.nodes h.pillars edge reverse

/-- A change of one road leaves the others as they are. -/
theorem mem_modify_cases {α : Type} {xs : Array α} {i : Nat} {change : α → α} {y : α}
    (hy : y ∈ xs.modify i change) : y ∈ xs ∨ ∃ x ∈ xs, y = change x := by
  obtain ⟨j, hj⟩ := Array.mem_iff_getElem?.1 hy
  rw [Array.getElem?_modify] at hj
  split at hj
  · obtain ⟨x, hx, rfl⟩ := Option.map_eq_some_iff.1 hj
    exact .inr ⟨x, Array.mem_of_getElem? hx, rfl⟩
  · exact .inl (Array.mem_of_getElem? hj)

/-- A node at a finite position. -/
theorem keeps_setNode (node : NodeId) {p : Point Exact} (hp : p.Finite) :
    Keeps Regular (setNode node p) := by
  intro g h
  refine ⟨h.wellFormed.placeNode node p, fun q hq => ?_, h.pillars, h.distances, h.turns⟩
  obtain ⟨j, hj⟩ := Array.mem_iff_getElem?.1
    (show q ∈ (grow g.nodes (node + 1) origin).setIfInBounds node p from hq)
  rw [Array.getElem?_setIfInBounds] at hj
  split at hj
  · split at hj
    · obtain rfl := Option.some.inj hj
      exact hp
    · cases hj
  · -- A node that was there, or one that has come into being at the origin.
    obtain hq | hq := Array.mem_append.1 (Array.mem_of_getElem? hj)
    · exact h.nodes q hq
    · obtain rfl := (Array.mem_replicate.1 hq).2
      exact finite_origin

/-- A road of no length yet. -/
theorem keeps_addEdge (a b : NodeId) : Keeps Regular (addEdge a b (0 : Exact)) := by
  intro g h
  obtain heq | ⟨ha, hb, heq⟩ := after_addEdge a b (0 : Exact) g
  · rwa [heq]
  · rw [heq]
    have hroad : ∀ r ∈ (g.joinNodes a b 0).roads,
        r ∈ g.roads ∨ r = ⟨a, b, 0, Polyline.empty g.is3d, ""⟩ := fun r hr => Array.mem_push.1 hr
    refine ⟨h.wellFormed.joinNodes 0 ha hb, h.nodes, fun r hr => ?_, fun r hr => ?_, h.turns⟩
    · obtain hr | rfl := hroad r hr
      · exact h.pillars r hr
      · exact fun p hp => absurd hp List.not_mem_nil
    · obtain hr | rfl := hroad r hr
      · exact h.distances r hr
      · rw [Exact.zero_eq]
        exact le_refl (0 : ℝ)

/-- **A change of one road** that moves no end, puts inner points at finite positions only and
leaves a length that is not negative. -/
theorem keeps_modifyRoad (edge : EdgeId) {change : Road Exact → Road Exact}
    (ha : ∀ r, (change r).a = r.a) (hb : ∀ r, (change r).b = r.b)
    (hpillars : ∀ r, (∀ p ∈ r.pillars.points, p.Finite) →
      ∀ p ∈ (change r).pillars.points, p.Finite)
    (hdistance : ∀ r, 0 ≤ r.distance → 0 ≤ (change r).distance) :
    Keeps Regular (modifyRoad edge change) := by
  intro g h
  have hwell := h.wellFormed.modifyRoad edge change ha hb
  obtain heq | heq := after_modifyRoad edge change g
  · rwa [heq]
  · rw [heq] at hwell ⊢
    have hroad : ∀ r ∈ g.roads.modify edge change, r ∈ g.roads ∨ ∃ r' ∈ g.roads, r = change r' :=
      fun r hr => mem_modify_cases hr
    refine ⟨hwell, h.nodes, fun r hr => ?_, fun r hr => ?_, h.turns⟩
    · obtain hr | ⟨r', hr', rfl⟩ := hroad r hr
      · exact h.pillars r hr
      · exact hpillars r' (h.pillars r' hr')
    · obtain hr | ⟨r', hr', rfl⟩ := hroad r hr
      · exact h.distances r hr
      · exact hdistance r' (h.distances r' hr')

/-- Inner points at finite positions. -/
theorem keeps_setPillars (edge : EdgeId) {s : Polyline Exact} (hs : ∀ p ∈ s.points, p.Finite) :
    Keeps Regular (setPillars edge s) := by
  intro g h
  let bounds := s.points.foldl (fun b p => b.extend p.lat p.lon) g.bounds
  have hbounds : Regular { g with bounds := bounds } :=
    ⟨h.wellFormed.of_touches rfl rfl fun _ _ => Iff.rfl, h.nodes, h.pillars, h.distances, h.turns⟩
  have hchange : Keeps Regular (modifyRoad edge fun r => { r with pillars := s }) :=
    keeps_modifyRoad edge (fun _ => rfl) (fun _ => rfl) (fun _ _ => hs) fun _ hd => hd
  exact hchange _ hbounds

theorem keeps_setName (edge : EdgeId) (name : String) :
    Keeps Regular (setName edge name) := by
  unfold setName
  exact keeps_modifyRoad edge (fun _ => rfl) (fun _ => rfl) (fun _ hs => hs) fun _ hd => hd

/-- A length that is not negative. -/
theorem keeps_setDistance (edge : EdgeId) {d : Exact} (hd : 0 ≤ d) :
    Keeps Regular (setDistance edge d) := by
  unfold setDistance
  exact keeps_modifyRoad edge (fun _ => rfl) (fun _ => rfl) (fun _ hs => hs) fun _ _ => hd

/-- A cost that is not negative, or none, which forbids the turn. -/
theorem keeps_setTurn (turn : Turn) {cost : Option Exact} (hcost : ∀ c, cost = some c → 0 ≤ c) :
    Keeps Regular (setTurn turn cost) := by
  intro g h
  refine ⟨h.wellFormed.of_touches rfl rfl fun _ _ => Iff.rfl, h.nodes, h.pillars, h.distances,
    fun other => ?_⟩
  have hset : ∀ c : Exact, 0 ≤ c → 0 ≤ (g.turns.set turn c).cost other := by
    intro c hc
    rw [TurnTable.cost_set]
    split
    · exact hc
    · exact h.turns other
  cases cost with
  | some c => exact hset c (hcost c rfl)
  | none => exact hset Scalar.infinity (by simp)

/-- Properties of roads do not matter. -/
theorem keeps_assign {α : Type} (v : EdgeView Exact) (p : IntProperty)
    (encode : α → Except (Error Exact) Nat) (values : Assignment α) :
    Keeps Regular (assign v p encode values) := by
  intro g h
  obtain ⟨words, heq⟩ := after_assign v p encode values g
  rw [heq]
  exact ⟨h.wellFormed.of_touches rfl rfl fun _ _ => Iff.rfl, h.nodes, h.pillars, h.distances,
    h.turns⟩

end RoadGraph

/-! ## §2. Documents. -/

open RoadGraph

/-- **A document of regular numbers**: no given length or cost is negative, and no elevation that
is read is infinite. -/
structure Fixture.Regular (f : Fixture Exact) : Prop where
  distances : ∀ e ∈ f.edges, ∀ d, e.distance = some d → 0 ≤ d
  costs : ∀ t ∈ f.turns, ∀ c, t.cost = some c → 0 ≤ c
  nodeElevations : f.elevation = true → ∀ p ∈ f.nodes, ∀ n, p.ele ≠ some (.infinite n)
  pillarElevations : f.elevation = true →
    ∀ e ∈ f.edges, ∀ p ∈ e.pillars, ∀ n, p.ele ≠ some (.infinite n)

/-- A coordinate in a finite range is finite. -/
theorem isReal_of_within {a b x : Exact} (ha : a.IsReal) (hb : b.IsReal)
    (h : Scalar.within a b x = true) : x.IsReal := by
  obtain ⟨y, rfl⟩ := ha
  obtain ⟨z, rfl⟩ := hb
  obtain ⟨x', rfl, -⟩ := (Exact.within_iff y z x).1 h
  exact Exact.isReal_real x'

/-- **A position on the globe** is finite, unless it is infinitely high. -/
theorem PointFixture.toPoint_finite {is3d : Bool} {p : PointFixture Exact} {q : Point Exact}
    (hele : is3d = true → ∀ n, p.ele ≠ some (.infinite n)) (h : p.toPoint is3d = .ok q) :
    q.Finite := by
  have hneg : ∀ n : Nat, (-(OfNat.ofNat n : Exact)).IsReal := fun n => by
    rw [Exact.ofNat_eq]
    exact ⟨_, rfl⟩
  have hpos : ∀ n : Nat, (OfNat.ofNat n : Exact).IsReal := fun n => ⟨_, Exact.ofNat_eq n⟩
  unfold toPoint at h
  split at h
  · rename_i hglobe
    rw [Bool.and_eq_true] at hglobe
    have hlat : p.lat.IsReal := isReal_of_within (hneg 90) (hpos 90) hglobe.1
    have hlon : p.lon.IsReal := isReal_of_within (hneg 180) (hpos 180) hglobe.2
    obtain rfl := Except.ok.inj h
    -- Latitude and longitude are bounded on the globe.  Nothing bounds the elevation, which is why
    -- it is asked for.
    cases is3d with
    | false => exact ⟨hlat, hlon, fun n hn => by cases hn⟩
    | true =>
      refine ⟨hlat, hlon, fun n hn => ?_⟩
      have hgiven : p.ele.getD 0 = .infinite n := hn
      cases he : p.ele with
      | none =>
        rw [he, Option.getD_none, Exact.zero_eq] at hgiven
        cases hgiven
      | some x =>
        rw [he, Option.getD_some] at hgiven
        exact hele rfl n (he.trans (congrArg some hgiven))
  · cases h

/-- A length that is not given is measured along finite positions. -/
theorem EdgeFixture.zero_le_distance {e : EdgeFixture Exact}
    (hdistance : ∀ d, e.distance = some d → 0 ≤ d) {g : RoadGraph Exact} (hg : g.Regular)
    (edge : EdgeId) : 0 ≤ e.distance.getD (Geo.lengthOf (g.fullGeometry edge false)) := by
  cases hd : e.distance with
  | some d => exact hdistance d hd
  | none =>
    obtain ⟨x, hx, heq⟩ := Exact.lengthOf_finite (hg.geometry edge false)
    rw [Option.getD_none, heq, Exact.zero_eq]
    exact hx

/-- **The graph of a document of regular numbers is regular.** -/
theorem Fixture.Regular.build {f : Fixture Exact} (hf : f.Regular) {g : RoadGraph Exact}
    {car : VehicleEncoding Exact} (h : f.build = .ok (g, car)) : g.Regular := by
  refine Fixture.of_build h (regular_empty f.elevation) (fun n => ?nodes) (fun e he car => ?roads)
    fun t ht => Fixture.keeps_addTurn (keeps_setTurn t.turn (hf.costs t ht))
  case nodes =>
    exact Fixture.keeps_placeNodes n fun p hp q hq n => keeps_setNode n
      (PointFixture.toPoint_finite (fun h3 => hf.nodeElevations h3 p hp) hq)
  case roads =>
    refine Fixture.keeps_addRoad (keeps_addEdge · ·) (fun edge qs hqs => keeps_setPillars edge ?_)
      (keeps_setName · e.name) (fun g edge hg => keeps_setDistance edge ?_) keeps_assign
    · intro q hq
      obtain ⟨p, hp, hpq⟩ := hqs q hq
      exact PointFixture.toPoint_finite (fun h3 => hf.pillarElevations h3 e he p hp) hpq
    · exact EdgeFixture.zero_le_distance (hf.distances e he) hg edge

end RoadSplice

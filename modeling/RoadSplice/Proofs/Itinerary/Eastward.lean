/-
  RoadSplice.Proofs.Itinerary.Eastward — journeys along a road.

  Any places along the road, each to the east of the one before it, can be visited: they are found
  on the road, each becomes a virtual node, and the road from each to the next one can be passed
  whatever is marked.  So all legs can be routed; the first one has the marks of its heading, and
  every later one those against turning back.
-/
import RoadSplice.Proofs.Fixture.Weights
import RoadSplice.Proofs.Itinerary.Legs
import RoadSplice.Proofs.Query.Marked
import RoadSplice.Proofs.Snap.Foot

namespace RoadSplice

open QueryGraph (InStep ofOverlay)

namespace Trip

open Exact (onParallel)
open RoadGraph (onlyRoad)
open SpeedWeighting (carWithoutTurns)
open Splicing (ApartFrom InPlace NotBehind chainOf)

/-! ## §1. Places. -/

/-- Places along the equator, with a wanted heading to the east; turning back is to be avoided. -/
noncomputable def eastward (xs : List ℝ) : Trip Exact :=
  { places := xs.map fun x => ⟨.real 0, .real x⟩
    heading := some (.real 90)
    passThrough := true
    withHierarchy := false
    config := carWithoutTurns.config }

/-- **Places on the road**, each to the east of the one before it. -/
structure Eastward (xs : List ℝ) : Prop where
  ne_nil : xs ≠ []
  apart : (0 :: xs).Pairwise fun x y => x + 1 / 1000 ≤ y
  inside : ∀ x ∈ xs, x < 1

theorem Eastward.pos {xs : List ℝ} (h : Eastward xs) {x : ℝ} (hx : x ∈ xs) : 0 < x := by
  have hle := (List.pairwise_cons.1 h.apart).1 x hx
  linarith

/-- The road from the first node to the second. -/
noncomputable def roadEast : Polyline Exact := ⟨[onParallel 0 0, onParallel 0 1], false⟩

/-- A place on the road, as it is found. -/
noncomputable def snapEast (x : ℝ) : Snap Exact :=
  { Snap.onEdge (onParallel 0 x) onlyRoad 0 .edge with point := some (onParallel 0 x) }.measured

/-- The road cut at some places. -/
noncomputable def chainEast (xs : List ℝ) : Chain Exact :=
  chainOf (Overlay.empty 2 1) onlyRoad roadEast (onParallel 0 0) (onParallel 0 1) (xs.map snapEast)

theorem along_snapEast (x : ℝ) : Splicing.along roadEast (snapEast x) =
    some (0, .real ((Real.cos (0 * (Real.pi / 180)) * ((x - 0) * (Real.pi / 180))) ^ 2)) := by
  show some (0, Geo.planeNormalizedDistance (onParallel 0 0).lat (onParallel 0 0).lon
    (onParallel 0 x).lat (onParallel 0 x).lon) = _
  rw [Exact.planeNormalizedDistance_onParallel]

theorem inPlace_snapEast (x : ℝ) : InPlace onlyRoad roadEast (snapEast x) :=
  ⟨⟨_, rfl, .inl rfl⟩, Position.noConfusion, ⟨_, rfl⟩, ⟨_, along_snapEast x⟩⟩

/-- Places further east come later along the road. -/
theorem notBehind_snapEast {x y : ℝ} (hx : 0 ≤ x) (hxy : x ≤ y) :
    NotBehind roadEast (snapEast x) (snapEast y) := by
  refine ⟨_, _, along_snapEast x, along_snapEast y, Splicing.atOrBefore_iff.2 (.inr ⟨rfl, ?_⟩)⟩
  rw [Exact.order_isLE_iff, Exact.real_le_real]
  refine .inl ?_
  rw [zero_mul, Real.cos_zero, one_mul, one_mul, sub_zero, sub_zero]
  gcongr

theorem apartFrom_snapEast {x : ℝ} {xs : List ℝ}
    (h : (x :: xs).Pairwise fun x y => x + 1 / 1000 ≤ y) :
    ApartFrom (onParallel 0 x) (xs.map snapEast) := by
  induction xs generalizing x with
  | nil => trivial
  | cons y xs ih =>
    obtain ⟨hx, hrest⟩ := List.pairwise_cons.1 h
    exact ⟨_, rfl, Exact.coincides_onParallel 0 (.inl (hx y (by simp))), ih hrest⟩

theorem pairwise_snapEast {xs : List ℝ} (h : Eastward xs) :
    (xs.map snapEast).Pairwise (NotBehind roadEast) :=
  List.pairwise_map.2 ((List.pairwise_cons.1 h.apart).2.imp_of_mem fun hx _ hxy =>
    notBehind_snapEast (h.pos hx).le (by linarith))

theorem nodup_snapEast {xs : List ℝ} (h : Eastward xs) : (xs.map snapEast).Nodup := by
  refine List.pairwise_map.2 ((List.pairwise_cons.1 h.apart).2.imp fun hxy heq => ?_)
  have hpoint := congrArg (fun s => s.point.map (·.lon)) heq
  have hlon := Exact.real.inj (Option.some.inj hpoint)
  linarith

/-- Each place becomes a virtual node, in its order. -/
theorem points_chainEast {xs : List ℝ} (h : Eastward xs) :
    (chainEast xs).points = xs.map (onParallel 0) := by
  refine ((apartFrom_snapEast h.apart).chain_points _ _ _ _).trans ?_
  rw [List.filterMap_map]
  exact List.filterMap_eq_map' ▸ rfl

/-! ## §2. Where the places are found. -/

section

variable {g : RoadGraph Exact} (h : g.ThereAndBack)
include h

theorem nodeCount_thereAndBack : g.nodeCount = 2 := by
  rw [RoadGraph.nodeCount, h.nodes]
  rfl

theorem hasDirection_thereAndBack : g.HasDirection onlyRoad :=
  ⟨_, by rw [h.roads]; rfl, .inl rfl⟩

theorem shape_thereAndBack : onlyRoad.shape g = .ok roadEast := by
  unfold DirectedEdge.shape RoadGraph.edgeNodes RoadGraph.fullGeometry
  rw [h.roads, h.nodes, h.is3d]
  rfl

/-- The road is the only segment, so it is looked at wherever a place is. -/
theorem nearest_thereAndBack (lat lon : Exact) : (LocationIndex.build g).nearest lat lon =
    [⟨0, 0, onParallel 0 0, onParallel 0 1⟩] := by
  have hindex : LocationIndex.build g = ⟨[⟨0, 0, onParallel 0 0, onParallel 0 1⟩]⟩ := by
    have hgeometry : g.fullGeometry 0 false = roadEast := by
      obtain ⟨-, -, hgeometry⟩ := except_map.1 (shape_thereAndBack h)
      exact hgeometry
    unfold LocationIndex.build LocationIndex.segmentsOf RoadGraph.edgeCount
    simp [h.roads, hgeometry, Polyline.segments, roadEast]
  rw [hindex]
  unfold LocationIndex.nearest
  dsimp only
  rw [List.map_singleton, List.mergeSort_singleton]
  rfl

/-- Vehicles pass the road, so its segment is not passed over. -/
theorem accepted_thereAndBack (lat lon : Exact) :
    ((LocationIndex.build g).nearest lat lon).filterM
        (fun s => do return VehicleEncoding.registered.accessible (← g.edge s.edge none)) =
      .ok [⟨0, 0, onParallel 0 0, onParallel 0 1⟩] := by
  have hedge : g.edge 0 none = .ok (g.view onlyRoad) := by
    unfold RoadGraph.edge RoadGraph.directedTo
    simp [h.roads, Except.map, onlyRoad]
  rw [nearest_thereAndBack h]
  refine filterM_ok (p := fun _ => true) fun s hs => ?_
  obtain rfl := List.mem_singleton.1 hs
  show (do return VehicleEncoding.registered.accessible (← g.edge 0 none)) = _
  rw [hedge]
  exact congrArg Except.ok h.accessible

omit h in
/-- The share of the segment at which a place lies. -/
theorem nearestShare_eastward {x : ℝ} (hx : 0 ≤ x) (hx' : x ≤ 1) :
    Segment.nearestShare ⟨0, 0, onParallel 0 0, onParallel 0 1⟩ (.real 0) (.real x) =
      Exact.real x := by
  have hshrink : Geo.shrink (.real 0) (.real 0) = Exact.real 1 := by
    rw [Exact.shrink_real]
    simp
  refine (congrArg Scalar.clampUnit (Exact.projectionFactor_real hshrink)).trans ?_
  rw [Exact.clampUnit_real, Exact.footShare]
  simp [hx, hx']

/-- **Where a place is found**: on the road, between its ends. -/
theorem findClosest_eastward {x : ℝ} (hx : 0 < x) (hx' : x < 1) :
    (LocationIndex.build g).findClosest g (.real 0) (.real x)
      VehicleEncoding.registered.accessible = .ok (snapEast x) := by
  have hplace : ∀ points, (Segment.candidate ⟨0, 0, onParallel 0 0, onParallel 0 1⟩ (.real 0)
      (.real x)).place points = (0, .edge) := by
    intro points
    unfold Candidate.place Segment.candidate
    dsimp only
    rw [nearestShare_eastward hx.le hx'.le, if_neg (by simpa using hx), if_neg (by simpa using hx')]
  have hnodes : g.edgeNodes 0 = .ok (0, 1) := by
    unfold RoadGraph.edgeNodes
    rw [h.roads]
    rfl
  have hhere : roadEast.get? 0 = some (onParallel 0 0) := rfl
  have hnext : roadEast.get? 1 = some (onParallel 0 1) := rfl
  refine (LocationIndex.findClosest_of_best (accepted_thereAndBack h _ _) rfl hnodes).trans ?_
  rw [hplace]
  refine (Splicing.located_edge (d := onlyRoad) rfl (shape_thereAndBack h) hhere hnext rfl).trans ?_
  rw [show roadEast.is3d = false from rfl, Splicing.footOn_onParallel]
  rfl

/-! ## §3. The road is cut. -/

/-- The road is cut at the places, and each has the node at which it is. -/
theorem build_eastward (hg : g.WellFormed) {xs : List ℝ} (hxs : Eastward xs) :
    ∃ o final, Overlay.build g (xs.map snapEast).toArray = (.ok o, final) ∧
      Overlay.Spliced g o [chainEast xs] ∧
      final.toList = (xs.map snapEast).mapIdx fun k s => s.setNode (2 + k) := by
  have huncut : Splicing.uncut g = Overlay.empty 2 1 := by
    unfold Splicing.uncut
    rw [nodeCount_thereAndBack h, RoadGraph.edgeCount, h.roads]
    rfl
  have hplace : ∀ s ∈ xs.map snapEast, InPlace onlyRoad roadEast s := fun s hs => by
    obtain ⟨x, -, rfl⟩ := List.mem_map.1 hs
    exact inPlace_snapEast x
  have hstops : Splicing.stopsOf (Splicing.uncut g) onlyRoad roadEast (onParallel 0 0)
      (xs.map snapEast) ≠ [] := fun hnil => hxs.ne_nil <| by
    have hpoints := points_chainEast hxs
    unfold chainEast chainOf at hpoints
    rw [← huncut, hnil] at hpoints
    exact List.map_eq_nil_iff.1 hpoints.symm
  obtain ⟨x, rest, hcons⟩ := List.exists_cons_of_ne_nil hxs.ne_nil
  have hhead : (xs.map snapEast).head? = some (snapEast x) := by
    rw [hcons]
    rfl
  obtain ⟨o, final, hbuild, hspliced, hsettled⟩ := Splicing.build_road hg
    (hasDirection_thereAndBack h) (Splicing.unturned_onlyRoad g) (shape_thereAndBack h) rfl rfl
    (Nat.le_refl 2) hhead rfl hplace (pairwise_snapEast hxs) hstops
  rw [huncut] at hspliced
  refine ⟨o, final, hbuild, hspliced, List.ext_getElem? fun k => ?_⟩
  obtain ⟨_, _, _, _, hsteps⟩ := Splicing.exists_buildSteps hbuild
  have hsize : final.size = (xs.map snapEast).length := hsteps.size_eq.trans List.size_toArray
  rw [Array.getElem?_toList]
  rcases Nat.lt_or_ge k (xs.map snapEast).length with hk | hk
  · rw [hsettled (nodup_snapEast hxs) k hk, nodeCount_thereAndBack h]
    exact congrArg (·[k]?) (ApartFrom.settled (a := Splicing.baseAnchor onlyRoad (onParallel 0 0))
      (apartFrom_snapEast hxs.apart) 2)
  · rw [Array.getElem?_eq_none (hsize ▸ hk), List.getElem?_eq_none (by simpa using hk)]

/-- The car of a journey on this road. -/
noncomputable def carEast (g : RoadGraph Exact) : SpeedWeighting Exact :=
  ⟨.registered, carWithoutTurns.config, some g.turns⟩

/-- **What is settled before the first leg**: the road is cut at the places, and each place is at a
virtual node, in its order. -/
structure SettledEast (g : RoadGraph Exact) (xs : List ℝ) (s : Preparation Exact) : Prop where
  built : ∃ final, Overlay.build g (xs.map snapEast).toArray = (.ok s.overlay, final)
  spliced : Overlay.Spliced g s.overlay [chainEast xs]
  weighting : s.weighting = (carEast g).toWeighting
  hierarchy : s.hierarchy = none
  visits : s.visits = (eastward xs).places.zip ((List.range xs.length).map (2 + ·))

theorem prepare_eastward (hg : g.WellFormed) {xs : List ℝ} (hxs : Eastward xs) :
    ∃ s, (eastward xs).prepare g .registered = .ok s ∧ SettledEast g xs s := by
  obtain ⟨o, final, hbuild, hspliced, hfinal⟩ := build_eastward h hg hxs
  have hfound : (eastward xs).places.mapM (snapPlace g .registered (LocationIndex.build g)) =
      .ok (xs.map snapEast) := by
    refine mapM_eq_ok.2 ?_
    unfold eastward
    rw [List.forall₂_map_left_iff, List.forall₂_map_right_iff, List.forall₂_same]
    intro x hx
    unfold snapPlace
    rw [findClosest_eastward h (hxs.pos hx) (hxs.inside x hx)]
    rfl
  have hnodes : (final.toList.map (·.measured)).mapM nodeOf =
      .ok ((List.range xs.length).map (2 + ·)) := by
    refine mapM_eq_ok.2 (List.forall₂_iff_get.2 ⟨by simp [hfinal], fun k hk hk' => ?_⟩)
    simp only [hfinal, List.get_eq_getElem, List.getElem_map, List.getElem_mapIdx,
      List.getElem_range]
    rfl
  have hprepare : (eastward xs).prepare g .registered = .ok ⟨o,
      (final.toList.map (·.measured)).map (Stop.ofSnap o.firstNode),
      (eastward xs).places.zip ((List.range xs.length).map (2 + ·)), (carEast g).toWeighting,
      none⟩ := by
    unfold prepare
    dsimp only
    rw [hfound]
    show (do
      let overlay ← (Overlay.build g (xs.map snapEast).toArray).1.mapError _
      _ : Except (TripError Exact) (Preparation Exact)) = _
    rw [hbuild]
    show (do
      let nodes ← (final.toList.map (·.measured)).mapM nodeOf
      _ : Except (TripError Exact) (Preparation Exact)) = _
    rw [hnodes]
    rfl
  exact ⟨_, hprepare, ⟨final, hbuild⟩, hspliced, rfl, rfl, rfl⟩

/-- The nodes of the places. -/
theorem along_chainEast {xs : List ℝ} (hxs : Eastward xs) {j : Nat} (hj : j < xs.length) :
    (chainEast xs).along g (j + 1) = 2 + j := by
  have hlt : j < (chainEast xs).points.length := by
    rw [points_chainEast hxs, List.length_map]
    exact hj
  have hstart : (chainEast xs).start = 0 := rfl
  rw [Chain.along, Chain.node_virtual _ _ hlt, hstart, Nat.zero_add, nodeCount_thereAndBack h]

/-- The road from each place to the next one can be passed. -/
theorem exists_edgeStep_east (hg : g.WellFormed) {xs : List ℝ} (hxs : Eastward xs)
    {o : Overlay Exact} (ho : Overlay.Spliced g o [chainEast xs]) {n : Nat}
    (hn : n + 1 < xs.length) :
    ∃ x, EdgeStep (ofOverlay g o) (QueryGraph.wrap o (carEast g).toWeighting) (2 + n)
      (2 + (n + 1)) x := by
  have hmem := List.mem_singleton_self (chainEast xs)
  have hlength : (chainEast xs).points.length = xs.length := by
    rw [points_chainEast hxs, List.length_map]
  obtain ⟨part, hpart⟩ := ho.laid.exists_part hmem (j := n + 1) (hlength ▸ hn.le)
  -- All positions are finite, so the parts have finite lengths.
  have hshape : ∀ p ∈ roadEast.points, p.lat.IsReal ∧ p.lon.IsReal := fun p hp => by
    rcases List.mem_pair.1 hp with rfl | rfl <;> exact ⟨⟨0, rfl⟩, ⟨_, rfl⟩⟩
  have hsnaps : ∀ s ∈ xs.map snapEast, ∀ p, s.point = some p → p.lat.IsReal ∧ p.lon.IsReal :=
    fun s hs p hp => by
      obtain ⟨x, -, rfl⟩ := List.mem_map.1 hs
      exact Option.some.inj hp ▸ ⟨⟨0, rfl⟩, ⟨x, rfl⟩⟩
  obtain ⟨x, -, hsum⟩ := Splicing.chainOf_length (d := onlyRoad) (Overlay.empty 2 1) rfl hshape rfl
    rfl hsnaps
  have hdistance : part.distance.IsReal := (Exact.isReal_total _).1 ⟨x, hsum⟩ _
    (List.mem_map_of_mem (List.mem_of_getElem? hpart))
  obtain ⟨y, hstep⟩ := ho.exists_edgeStep (w := carEast g) hg rfl SpeedWeighting.isReal_carPenalty
    hmem h.word hpart hdistance false
  rw [← along_chainEast h hxs hn, ← along_chainEast h hxs (Nat.lt_of_succ_lt hn)]
  exact ⟨y, hstep⟩

/-! ## §4. The legs. -/

namespace SettledEast

variable {xs : List ℝ} {s : Preparation Exact} (hs : SettledEast g xs s) (hxs : Eastward xs)
include hs

omit h in
theorem visit {n : Nat} {v : Visit Exact} (hv : s.visits[n]? = some v) :
    n < xs.length ∧ v.2 = 2 + n := by
  rw [hs.visits, List.getElem?_zip_eq_some, List.getElem?_map] at hv
  obtain ⟨i, hi, heq⟩ := Option.map_eq_some_iff.1 hv.2
  obtain ⟨hlt, rfl⟩ := List.getElem?_eq_some_iff.1 hi
  rw [List.length_range] at hlt
  rw [List.getElem_range] at heq
  exact ⟨hlt, heq.symm⟩

omit h hs in
theorem exists_snapEast {i : Nat} {u : Snap Exact}
    (hu : (xs.map snapEast).toArray[i]? = some u) : ∃ x ∈ xs, snapEast x = u := by
  rw [List.getElem?_toArray] at hu
  exact List.mem_map.1 (List.mem_of_getElem? hu)

/-- Tables and lengths are those of a road that has been cut. -/
theorem exists_measured (hg : g.WellFormed) : ∃ cs, Overlay.Measured g s.overlay cs := by
  obtain ⟨final, hbuild⟩ := hs.built
  refine Overlay.measured_of_build hg (fun i u hu d hd => ?_) hbuild fun r hr => ?_
  · obtain ⟨x, -, rfl⟩ := exists_snapEast hu
    exact Option.some.inj hd ▸ hasDirection_thereAndBack h
  · rw [h.roads] at hr
    obtain rfl := Array.mem_singleton.1 hr
    rw [Exact.zero_eq, Exact.real_le_real]
    norm_num

include hxs

theorem isVirtualNode {n : Nat} (hn : n < xs.length) :
    s.overlay.isVirtualNode (2 + n) = true := by
  rw [← along_chainEast h hxs hn]
  refine hs.spliced.isVirtualNode_along (List.mem_singleton_self _) ?_
  rw [points_chainEast hxs, List.length_map]
  exact hn

/-- Every piece has its line: no snap is at an inner point, and the road is no loop. -/
theorem spanning (hg : g.WellFormed) : (ofOverlay g s.overlay).Spanning := by
  obtain ⟨final, hbuild⟩ := hs.built
  refine QueryGraph.spanning_of_build hg (fun i u hu => ?_) (fun i u hu hpos => ?_)
    (Splicing.loopsInPlace_onlyRoad fun i u hu => ?_) hbuild
  · obtain ⟨x, hx, rfl⟩ := exists_snapEast hu
    have hfound := findClosest_eastward h (hxs.pos hx) (hxs.inside x hx)
    rw [LocationIndex.findClosest_eq] at hfound
    exact (LocationIndex.computed_of_findAmong hfound rfl).1
  · obtain ⟨x, -, rfl⟩ := exists_snapEast hu
    cases hpos
  · obtain ⟨x, -, rfl⟩ := exists_snapEast hu
    rfl

/-- **Each leg can be routed**, whatever is marked. -/
theorem exists_routeLeg (hg : g.Built) {n : Nat} (hn : n + 1 < xs.length) {q : QueryGraph Exact}
    (hinStep : InStep g s.overlay q) :
    ∃ out, routeLeg q s.weighting s.hierarchy (2 + n) (2 + (n + 1)) = .ok (some out) := by
  obtain ⟨final, hbuild⟩ := hs.built
  obtain ⟨tracked, rfl, -⟩ := hinStep
  obtain ⟨cs, hmeasured⟩ := hs.exists_measured h hg.wellFormed
  have hopened : (ofOverlay g s.overlay).Opened := .ofBuild hg hbuild
  have hpenalty : 0 ≤ (carEast g).config.headingPenalty := by
    show (0 : Exact) ≤ 300
    rw [Exact.zero_eq, show (300 : Exact) = .real 300 from Exact.ofNat_eq 300, Exact.real_le_real]
    norm_num
  -- The road to the next place can be passed without marks, so it can be passed with any.
  have hreachable : Reachable (ofOverlay g s.overlay)
      (QueryGraph.wrap s.overlay (carEast g).toWeighting) (2 + n) (2 + (n + 1)) := by
    obtain ⟨x, hstep⟩ := exists_edgeStep_east h hg.wellFormed hxs hs.spliced hn
    exact (reachable_iff hopened.sound.readable.base_eq).2 ⟨x, .single hstep⟩
  obtain ⟨path, hpath⟩ := Option.isSome_iff_exists.1
    ((hmeasured.isSome_dijkstra_marking hpenalty SpeedWeighting.isReal_carPenalty rfl hopened.sound
      (fun i => tracked.contains i) tracked).2 hreachable)
  have hnode : 2 + n < (ofOverlay g s.overlay).nodeCount := by
    obtain ⟨k, hk, heq⟩ := Overlay.exists_of_isVirtualNode
      (hs.isVirtualNode h hxs (Nat.lt_of_succ_lt hn))
    rw [heq, hs.spliced.firstNode_eq]
    exact Nat.add_lt_add_left hk _
  rw [hs.weighting, hs.hierarchy]
  exact Trip.exists_routeLeg ((hs.spanning h hxs hg.wellFormed).remarked g.words _ tracked) hnode
    hpath

omit h hxs in
theorem length_visits : s.visits.length = xs.length := by
  rw [hs.visits]
  simp [eastward]

/-- All legs can be routed, one after the other. -/
theorem exists_legs (hbuild : thereAndBack.build = .ok (g, .registered))
    (hprepare : (eastward xs).prepare g .registered = .ok s) {n : Nat} (hn : n < xs.length) :
    ∃ p, (eastward xs).legs s.weighting s.hierarchy (s.visits.take (n + 1)) (s.start g) =
      .ok p := by
  have hg : g.Built := Fixture.built hbuild
  obtain ⟨final, hoverlay⟩ := hs.built
  have ho := Overlay.build_fresh hoverlay
  refine Trip.exists_legs ho hs.spliced.firstNode_eq (Preparation.inOrder_start hbuild hprepare) rfl
    (fun source hsource => ?_) (fun n source target q hsource htarget hinStep => ?_)
    (hs.length_visits.symm ▸ hn)
  · obtain ⟨hpos, hnode⟩ := hs.visit hsource
    exact exists_markLeg_first ho (.ofBuild hg hoverlay) (hnode ▸ hs.isVirtualNode h hxs hpos) rfl
      (by norm_num) (by norm_num) none
  · obtain ⟨-, hnode⟩ := hs.visit hsource
    obtain ⟨hlt, hnode'⟩ := hs.visit htarget
    rw [hnode, hnode']
    exact hs.exists_routeLeg h hxs hg hlt hinStep

/-- The journey can be planned. -/
theorem exists_plan (hbuild : thereAndBack.build = .ok (g, .registered))
    (hprepare : (eastward xs).prepare g .registered = .ok s) :
    ∃ it, (eastward xs).plan g .registered = .ok it := by
  have hpos := List.length_pos_iff.2 hxs.ne_nil
  have hlength := hs.length_visits
  obtain ⟨p, hrun⟩ := hs.exists_legs h hxs hbuild hprepare (n := xs.length - 1) (by omega)
  rw [List.take_of_length_le (by omega)] at hrun
  refine ⟨p.itinerary, ?_⟩
  unfold plan
  rw [hprepare]
  show (do
    let done ← (eastward xs).legs s.weighting s.hierarchy s.visits (s.start g)
    return done.itinerary) = _
  rw [hrun]
  rfl

/-- **The heading marks the first leg**: the way back to the west is unfavored there. -/
theorem exists_unfavored (hg : g.Built) (arrival : Option EdgeId) :
    ∃ i p, (MarkCall.afterAll ((eastward xs).markCalls s.overlay 0 2 arrival)
      (ofOverlay g s.overlay)).overlay.piece? i = some p ∧ p.unfavored = true := by
  obtain ⟨final, hbuild⟩ := hs.built
  have hpos := List.length_pos_iff.2 hxs.ne_nil
  have hmem := List.mem_singleton_self (chainEast xs)
  have hnode : (chainEast xs).node s.overlay.firstNode 1 = 2 := by
    rw [hs.spliced.firstNode_eq]
    exact along_chainEast h hxs hpos
  obtain ⟨x, rest, rfl⟩ := List.exists_cons_of_ne_nil hxs.ne_nil
  have hapart : (onParallel 0 0).coincides (onParallel 0 x) = false :=
    Exact.coincides_onParallel 0 (.inl ((List.pairwise_cons.1 hxs.apart).1 x (by simp)))
  have hpart : (chainEast (x :: rest)).parts[0]? = some (Splicing.partToSnap roadEast
      (Splicing.baseAnchor onlyRoad (onParallel 0 0)) (snapEast x)) :=
    Splicing.chainOf_first_part _ _ _ rfl hapart _
  obtain ⟨i, p, hcandidate, hdeviates⟩ := QueryGraph.exists_candidate_west (g := g)
    hs.spliced.laid hmem hpart (hxs.pos (by simp)) rfl
  rw [hnode] at hcandidate
  have hvirtual : (ofOverlay g s.overlay).isVirtualNode 2 = true := hs.isVirtualNode h hxs hpos
  obtain ⟨m, tracked, enforced, hrun, -, hmarks⟩ := QueryGraph.enforceHeading_marking
    (.ofBuild hg hbuild) hvirtual (h := 90) (by norm_num) (by norm_num) false
  have hcalls : (eastward (x :: rest)).markCalls s.overlay 0 2 arrival =
      [.heading 2 (.real 90) false] := rfl
  have hafter : MarkCall.afterAll [.heading 2 (.real 90) false] (ofOverlay g s.overlay) =
      QueryGraph.marking g s.overlay m tracked := afterAll_of_result hrun
  refine ⟨i, { p with unfavored := m i }, ?_, (hmarks i).2 (.inr ⟨i, p, hcandidate, hdeviates,
    .inl rfl⟩)⟩
  rw [hcalls, hafter]
  exact QueryGraph.piece?_marking hcandidate.1

/-- **The later legs are marked against turning back** on the piece on which the leg before them
arrives. -/
theorem exists_pair (hg : g.Built) {outcomes : List (Outcome Exact)}
    (halone : (eastward xs).StandAlone g s outcomes) {n : Nat} (hn : n < outcomes.length) :
    ∃ e, s.overlay.isVirtualEdge e = true ∧
      (eastward xs).markCalls s.overlay (n + 1) (2 + (n + 1)) (arrivalBefore outcomes (n + 1)) =
        [.pair (2 + (n + 1)) e] := by
  obtain ⟨final, hbuild⟩ := hs.built
  have ho := Overlay.build_fresh hbuild
  obtain ⟨source, target, hsource, htarget, hroute⟩ := halone n _ (List.getElem?_eq_getElem hn)
  obtain ⟨-, hnode⟩ := hs.visit hsource
  obtain ⟨hlt, hnode'⟩ := hs.visit htarget
  rw [hnode, hnode'] at hroute
  obtain ⟨e, hedge, hcalls⟩ := exists_markCalls_pair (t := eastward xs)
    (QueryGraph.sound_of_build hg.wellFormed hbuild)
    ((QueryGraph.inStep_ofOverlay ho).afterAll ho _) rfl (show 2 + n ≠ 2 + (n + 1) by omega)
    (hs.isVirtualNode h hxs hlt) hroute n
  refine ⟨e, hedge, ?_⟩
  rw [arrivalBefore, List.getElem?_eq_getElem hn]
  exact hcalls

end SettledEast

end

end Trip

end RoadSplice

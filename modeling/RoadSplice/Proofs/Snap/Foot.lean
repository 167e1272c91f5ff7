/-
  RoadSplice.Proofs.Snap.Foot — a snap lies where its candidate was measured.

  A candidate is measured at the foot of the fix on its segment, by the share of the way.  The snap
  is then placed by a way index and a position, and its point is found anew: at an end of the
  segment, or where the perpendicular meets it.  Over exact numbers, and away from the poles, both
  computations lead to the same point.
-/
import RoadSplice.Proofs.Geo.Distance
import RoadSplice.Proofs.Snap.Closest

namespace RoadSplice

/-! ## §1. The perpendicular. -/

namespace Exact

/-- The share of the way from `(a, b)` to `(c, d)` at which the perpendicular from `(q, r)` meets
it, where the second coordinates are shrunk by `s`. -/
noncomputable def footShare (s q r a b c d : ℝ) : ℝ :=
  ((r * s - b * s) * (d * s - b * s) + (q - a) * (c - a)) /
    ((d * s - b * s) * (d * s - b * s) + (c - a) * (c - a))

variable {s q r a b c d : ℝ}

/-- The share that is computed, also for a segment without length. -/
theorem projectionFactor_real (hs : Geo.shrink (real a) (real c) = real s) :
    Geo.projectionFactor (real q) (real r) (real a) (real b) (real c) (real d) =
      real (footShare s q r a b c d) := by
  unfold Geo.projectionFactor footShare
  simp only [hs, real_mul, real_sub, real_add, zero_eq]
  by_cases hnorm : (d * s - b * s) * (d * s - b * s) + (c - a) * (c - a) = 0
  · rw [if_pos (by simp [hnorm]), hnorm, div_zero]
  · rw [if_neg (by simpa using hnorm), real_div _ hnorm]

/-- **The crossing point lies at the share of the way**, along parallels and meridians too. -/
theorem crossingPoint_real (hs : Geo.shrink (real a) (real c) = real s) (hne : s ≠ 0)
    (hlong : ¬ (c = a ∧ d = b)) :
    Geo.crossingPoint (real q) (real r) (real a) (real b) (real c) (real d) =
      (real (a + footShare s q r a b c d * (c - a)),
        real (b + footShare s q r a b c d * (d - b))) := by
  unfold Geo.crossingPoint
  rw [projectionFactor_real hs]
  simp only [hs, real_mul, real_sub, real_add, zero_eq, beq_iff, ne_eq, reduceCtorEq,
    not_false_eq_true, and_true, real.injEq]
  by_cases hparallel : c - a = 0
  · -- Along a parallel the foot has the longitude of the fix.
    have hc : c = a := sub_eq_zero.1 hparallel
    have hd : d - b ≠ 0 := fun h => hlong ⟨hc, sub_eq_zero.1 h⟩
    rw [if_pos hparallel]
    have hshare : footShare s q r a b c d * (d - b) = r - b := by
      unfold footShare
      rw [hparallel, ← sub_mul, ← sub_mul]
      field_simp
      ring
    rw [hshare, hparallel]
    congr 2 <;> ring
  · rw [if_neg hparallel]
    by_cases hmeridian : d * s - b * s = 0
    · -- Along a meridian it has the latitude of the fix.
      have hd : d - b = 0 := by
        rw [← sub_mul] at hmeridian
        exact (mul_eq_zero.1 hmeridian).resolve_right hne
      rw [if_pos hmeridian]
      have hshare : footShare s q r a b c d * (c - a) = q - a := by
        unfold footShare
        rw [hmeridian]
        field_simp
        ring
      rw [hshare, hd]
      congr 2 <;> ring
    · rw [if_neg hmeridian, real_div _ hne]
      congr 2
      field_simp

/-- A share moved into the unit interval. -/
theorem clampUnit_real (x : ℝ) : Scalar.clampUnit (real x) = real (max 0 (min x 1)) := by
  unfold Scalar.clampUnit
  simp only [zero_eq, one_eq, real_lt_real]
  by_cases hneg : x < 0
  · rw [if_pos hneg, max_eq_left ((min_le_left x 1).trans hneg.le)]
  · rw [if_neg hneg]
    by_cases hover : 1 < x
    · rw [if_pos hover, min_eq_right hover.le, max_eq_right zero_le_one]
    · rw [if_neg hover, min_eq_left (not_lt.1 hover), max_eq_right (not_lt.1 hneg)]

end Exact

/-! ## §2. Candidates and their places. -/

section

variable {K : Type} [Scalar K] {g : RoadGraph K}

/-- **The foot of a candidate**, at its share of the way along its segment. -/
def Candidate.foot (c : Candidate K) : K × K :=
  (c.segment.start.lat + c.share * (c.segment.finish.lat - c.segment.start.lat),
    c.segment.start.lon + c.share * (c.segment.finish.lon - c.segment.start.lon))

/-- Candidates are compared by how far their feet are. -/
theorem Segment.distance_candidate (seg : Segment K) (lat lon : K) :
    (seg.candidate lat lon).distance = Geo.planeNormalizedDistance lat lon
      (seg.candidate lat lon).foot.1 (seg.candidate lat lon).foot.2 := rfl

/-- The foot is between the ends of the segment, and at neither. -/
def Candidate.StrictlyInside (c : Candidate K) : Prop :=
  0 < c.share ∧ c.share < 1 ∧ ¬ (c.segment.finish.lat = c.segment.start.lat ∧
    c.segment.finish.lon = c.segment.start.lon)

/-- **The places of a candidate**, by its share of the way. -/
theorem Candidate.place_cases (c : Candidate K) (points : Nat) :
    (c.share ≤ 0 ∧ (c.segment.index = 0 ∧ c.place points = (0, .tower) ∨
        0 < c.segment.index ∧ c.place points = (c.segment.index, .pillar))) ∨
      (1 ≤ c.share ∧ (c.segment.index + 2 = points ∧ c.place points = (points - 1, .tower) ∨
        c.segment.index + 2 ≠ points ∧ c.place points = (c.segment.index + 1, .pillar))) ∨
      (¬ c.share ≤ 0 ∧ ¬ 1 ≤ c.share ∧ c.place points = (c.segment.index, .edge)) := by
  unfold place
  by_cases hstart : c.share ≤ 0
  · left
    refine ⟨hstart, ?_⟩
    by_cases hfirst : c.segment.index = 0
    · simp [hstart, hfirst]
    · simp [hstart, hfirst, Nat.pos_of_ne_zero hfirst]
  · by_cases hfinish : 1 ≤ c.share
    · right
      left
      refine ⟨hfinish, ?_⟩
      by_cases hlast : c.segment.index + 2 = points
      · simp [hstart, hfinish, hlast]
      · simp [hstart, hfinish, hlast]
    · simp [hstart, hfinish]

/-- **The ends of a segment** are points of the shape of its road, one behind the other. -/
theorem LocationIndex.ends_of_mem {seg : Segment K} (h : seg ∈ (build g).segments) :
    (g.fullGeometry seg.edge false).get? seg.index = some seg.start ∧
      (g.fullGeometry seg.edge false).get? (seg.index + 1) = some seg.finish := by
  obtain ⟨edge, -, hseg⟩ := List.mem_flatMap.1 h
  obtain ⟨⟨⟨p, q⟩, i⟩, hi, rfl⟩ := List.mem_map.1 hseg
  have hi := List.mem_zipIdx_iff_getElem?.1 hi
  unfold Polyline.segments at hi
  rw [List.getElem?_zip_eq_some, List.getElem?_drop] at hi
  unfold Polyline.get?
  refine ⟨hi.1, ?_⟩
  rw [Nat.add_comm]
  exact hi.2

/-! ## §3. What a snap describes. -/

/-- **A snap at the foot of a candidate** on a road of a given shape.  It is at a tower at the ends
of the shape only and knows the node there, at a pillar inside the shape only, and on an edge with
the foot between the two points that it names. -/
structure Snap.AtFoot (d : DirectedEdge) (shape : Polyline K) (c : Candidate K) (s : Snap K) :
    Prop where
  point : ∃ p, s.point = some p ∧ (p.lat, p.lon) = c.foot
  tower : s.position = .tower → s.wayIndex = 0 ∧ s.node = some d.base ∨
    s.wayIndex + 1 = shape.length ∧ s.node = some d.adj
  pillar : s.position = .pillar → 0 < s.wayIndex ∧ s.wayIndex + 1 < shape.length
  edge : s.position = .edge → s.wayIndex + 1 < shape.length ∧
    shape.get? s.wayIndex = some c.segment.start ∧
      shape.get? (s.wayIndex + 1) = some c.segment.finish ∧ c.StrictlyInside

end

/-! ## §4. Graphs with finite coordinates. -/

namespace RoadGraph

/-- **A graph with finite coordinates**, and no segment of a road whose mean latitude is that of a
pole. -/
structure Charted (g : RoadGraph Exact) : Prop where
  nodes : ∀ p ∈ g.nodes, p.lat.IsReal ∧ p.lon.IsReal
  pillars : ∀ r ∈ g.roads, ∀ p ∈ r.pillars.points, p.lat.IsReal ∧ p.lon.IsReal
  offPoles : ∀ seg ∈ (LocationIndex.build g).segments,
    Geo.shrink seg.start.lat seg.finish.lat ≠ 0

variable {g : RoadGraph Exact} {seg : Segment Exact}

theorem Charted.geometry (h : g.Charted) (edge : EdgeId) (reverse : Bool) :
    ∀ p ∈ (g.fullGeometry edge reverse).points, p.lat.IsReal ∧ p.lon.IsReal := by
  apply forall_fullGeometry
  · unfold origin Point.flat
    rw [Exact.zero_eq]
    exact ⟨Exact.isReal_real 0, Exact.isReal_real 0⟩
  · exact h.nodes
  · exact h.pillars

/-- The coordinates of a segment are finite, and its parallels have not shrunk to a point. -/
theorem Charted.exists_coordinates (h : g.Charted)
    (hseg : seg ∈ (LocationIndex.build g).segments) : ∃ a b c d s : ℝ,
      seg.start.lat = .real a ∧ seg.start.lon = .real b ∧ seg.finish.lat = .real c ∧
        seg.finish.lon = .real d ∧ Geo.shrink (.real a) (.real c) = Exact.real s ∧ s ≠ 0 := by
  obtain ⟨hstart, hfinish⟩ := LocationIndex.ends_of_mem hseg
  obtain ⟨⟨a, ha⟩, b, hb⟩ := h.geometry seg.edge false _ (List.mem_of_getElem? hstart)
  obtain ⟨⟨c, hc⟩, d, hd⟩ := h.geometry seg.edge false _ (List.mem_of_getElem? hfinish)
  have hpole := h.offPoles seg hseg
  rw [ha, hc, Exact.shrink_real, Exact.zero_eq] at hpole
  refine ⟨a, b, c, d, _, ha, hb, hc, hd, Exact.shrink_real a c, ?_⟩
  intro hzero
  exact hpole (congrArg Exact.real hzero)

/-- **The foot of a candidate on a segment of a charted graph**: at the ends of the segment where
its share is at an end, and otherwise where the perpendicular meets it. -/
theorem Charted.foot_cases (h : g.Charted) (hseg : seg ∈ (LocationIndex.build g).segments)
    (x y : ℝ) :
    let c := seg.candidate (.real x) (.real y)
    (c.share ≤ 0 → (seg.start.lat, seg.start.lon) = c.foot) ∧
      (1 ≤ c.share → (seg.finish.lat, seg.finish.lon) = c.foot) ∧
      (¬ c.share ≤ 0 → ¬ 1 ≤ c.share → c.StrictlyInside ∧
        Geo.crossingPoint (.real x) (.real y) seg.start.lat seg.start.lon seg.finish.lat
          seg.finish.lon = c.foot) := by
  intro c
  obtain ⟨a₁, a₂, b₁, b₂, s, ha₁, ha₂, hb₁, hb₂, hs, hne⟩ := h.exists_coordinates hseg
  let f := Exact.footShare s x y a₁ a₂ b₁ b₂
  let t : ℝ := max 0 (min f 1)
  have hshare : c.share = .real t := by
    show Segment.nearestShare _ _ _ = _
    unfold Segment.nearestShare
    rw [ha₁, ha₂, hb₁, hb₂, Exact.projectionFactor_real hs, Exact.clampUnit_real]
  have hfoot : c.foot = (Exact.real (a₁ + t * (b₁ - a₁)), Exact.real (a₂ + t * (b₂ - a₂))) := by
    unfold Candidate.foot
    rw [hshare, show c.segment = seg from rfl, ha₁, ha₂, hb₁, hb₂]
    simp only [Exact.real_sub, Exact.real_mul, Exact.real_add]
  have ht : 0 ≤ t ∧ t ≤ 1 := ⟨le_max_left _ _, max_le zero_le_one (min_le_right _ _)⟩
  rw [hfoot, hshare, Exact.zero_eq, Exact.one_eq, Exact.real_le_real, Exact.real_le_real]
  refine ⟨fun hle => ?_, fun hle => ?_, fun hstart hfinish => ?_⟩
  · rw [show t = 0 by linarith, ha₁, ha₂, zero_mul, zero_mul, add_zero, add_zero]
  · rw [show t = 1 by linarith, hb₁, hb₂, one_mul, one_mul, add_sub_cancel, add_sub_cancel]
  · -- A share inside the unit interval is the one of the perpendicular.
    have htf : t = f := by
      have hmin : 0 < min f 1 := (lt_max_iff.1 (not_le.1 hstart)).resolve_left (lt_irrefl 0)
      have ht : t = min f 1 := max_eq_right hmin.le
      rw [ht] at hfinish ⊢
      exact min_eq_left (le_of_lt ((min_lt_iff.1 (not_le.1 hfinish)).resolve_right (lt_irrefl 1)))
    have hlong : ¬ (b₁ = a₁ ∧ b₂ = a₂) := by
      intro hpoint
      refine hstart (le_of_eq ?_)
      rw [htf]
      simp [f, Exact.footShare, hpoint.1, hpoint.2]
    constructor
    · unfold Candidate.StrictlyInside
      rw [hshare, show c.segment = seg from rfl, ha₁, ha₂, hb₁, hb₂, Exact.zero_eq, Exact.one_eq,
        Exact.real_lt_real, Exact.real_lt_real, Exact.real.injEq, Exact.real.injEq]
      exact ⟨not_le.1 hstart, not_le.1 hfinish, hlong⟩
    · rw [ha₁, ha₂, hb₁, hb₂, Exact.crossingPoint_real hs hne hlong, htf]

end RoadGraph

/-! ## §5. Snaps at their feet. -/

namespace LocationIndex

variable {g : RoadGraph Exact}

/-- **A candidate that has been placed and located** is at its foot. -/
theorem atFoot_of_located (hg : g.Charted) {seg : Segment Exact} (hseg : seg ∈ (build g).segments)
    {x y : ℝ} {d : DirectedEdge} {s : Snap Exact}
    (hshape : d.shape g = .ok (g.fullGeometry seg.edge false))
    (hs : (Snap.onEdge (Point.flat (.real x) (.real y)) d
      ((seg.candidate (.real x) (.real y)).place (g.fullGeometry seg.edge false).length).1
      ((seg.candidate (.real x) (.real y)).place (g.fullGeometry seg.edge false).length).2).located
        g = .ok s) :
    s.AtFoot d (g.fullGeometry seg.edge false) (seg.candidate (.real x) (.real y)) := by
  obtain ⟨hstart, hfinish⟩ := ends_of_mem hseg
  obtain ⟨-, -, hlt⟩ := exists_road_of_mem hseg
  obtain ⟨hatStart, hatFinish, hbetween⟩ := hg.foot_cases hseg x y
  generalize hshape' : g.fullGeometry seg.edge false = shape at *
  rcases (seg.candidate (.real x) (.real y)).place_cases shape.length with
    ⟨hshare, ⟨hindex, hplace⟩ | ⟨hindex, hplace⟩⟩ | ⟨hshare, ⟨hindex, hplace⟩ | ⟨hindex, hplace⟩⟩ |
      ⟨hstart', hfinish', hplace⟩ <;> rw [hplace] at hs
  · -- At the first point of the shape.
    have hhere : shape.get? 0 = some seg.start := by
      rw [← hstart]
      exact congrArg shape.get? hindex.symm
    rw [Snap.located_tower rfl hshape hhere rfl] at hs
    obtain rfl := Except.ok.inj hs
    exact ⟨⟨seg.start, rfl, hatStart hshare⟩, fun _ => .inl ⟨rfl, rfl⟩, nofun, nofun⟩
  · -- At an inner point, the first one of the segment.
    rw [Splicing.located_pillar rfl hshape hstart rfl] at hs
    obtain rfl := Except.ok.inj hs
    exact ⟨⟨seg.start, rfl, hatStart hshare⟩, nofun, fun _ => ⟨hindex, hlt⟩, nofun⟩
  · -- At the last point of the shape.
    have hlast : shape.length - 1 = seg.index + 1 := by
      have hindex : seg.index + 2 = shape.length := hindex
      omega
    rw [hlast] at hs
    rw [Snap.located_tower rfl hshape hfinish rfl] at hs
    obtain rfl := Except.ok.inj hs
    exact ⟨⟨seg.finish, rfl, hatFinish hshare⟩, fun _ => .inr ⟨hindex, rfl⟩, nofun, nofun⟩
  · -- At an inner point, the second one of the segment.
    rw [Splicing.located_pillar rfl hshape hfinish rfl] at hs
    obtain rfl := Except.ok.inj hs
    refine ⟨⟨seg.finish, rfl, hatFinish hshare⟩, nofun, fun _ => ⟨Nat.succ_pos _, ?_⟩, nofun⟩
    show seg.index + 1 + 1 < shape.length
    have hindex : seg.index + 2 ≠ shape.length := hindex
    omega
  · -- Between the two, at the foot of the perpendicular.
    obtain ⟨hinside, hcrossing⟩ := hbetween hstart' hfinish'
    rw [Splicing.located_edge rfl hshape hstart hfinish rfl] at hs
    obtain rfl := Except.ok.inj hs
    refine ⟨⟨_, rfl, ?_⟩, nofun, nofun, fun _ => ⟨hlt, hstart, hfinish, hinside⟩⟩
    exact hcrossing

/-- **A snap describes the candidate that was chosen**: where it names a road, it is at the foot of
the best candidate among the segments that were looked at, the one to which its distance was
measured, and this candidate is on that road. -/
def Describes (g : RoadGraph Exact) (lat lon : Exact) (accepts : EdgeView Exact → Bool)
    (looked : List (Segment Exact)) (s : Snap Exact) : Prop :=
  ∀ d, s.closest = some d → ∃ shape, d.shape g = .ok shape ∧ ∃ seg ∈ looked, seg.edge = d.edge ∧
    let c := seg.candidate lat lon
    chosen g lat lon accepts looked = .ok (some c) ∧
      c.distance = Geo.planeNormalizedDistance lat lon c.foot.1 c.foot.2 ∧ s.AtFoot d shape c

theorem exists_describes (hg : g.Charted) (x y : ℝ) (accepts : EdgeView Exact → Bool)
    {looked : List (Segment Exact)} (hlooked : ∀ seg ∈ looked, seg ∈ (build g).segments) :
    ∃ s, findAmong g (.real x) (.real y) accepts looked = .ok s ∧
      Describes g (.real x) (.real y) accepts looked s := by
  rcases chosen_cases (.real x) (.real y) accepts hlooked with
    ⟨hnone, -⟩ | ⟨seg, hseg, -, hchosen⟩
  · refine ⟨_, findAmong_of_none hnone, ?_⟩
    intro d hd
    cases hd
  · obtain ⟨r, hr, s, hs, hlocated, hclosest⟩ := exists_findAmong (hlooked seg hseg) hchosen
    refine ⟨s, hs, ?_⟩
    intro d hd
    rw [hclosest] at hd
    obtain rfl := Option.some.inj hd
    have hshape := DirectedEdge.shape_stored hr
    exact ⟨_, hshape, seg, hseg, rfl, hchosen, seg.distance_candidate _ _,
      atFoot_of_located hg (hlooked seg hseg) hshape hlocated⟩

/-- **A snap describes the very point by which it was ranked.**  On a charted graph the index
answers any finite fix, and so it would whichever of its segments it looked at; the point of the
snap is the foot that was compared, and its position and way index say where on the road that is. -/
theorem snap_at_compared_foot (hg : g.Charted) (x y : ℝ) (accepts : EdgeView Exact → Bool) :
    (∃ s, (build g).findClosest g (.real x) (.real y) accepts = .ok s ∧
        Describes g (.real x) (.real y) accepts ((build g).nearest (.real x) (.real y)) s) ∧
      ∀ looked : List (Segment Exact), (∀ seg ∈ looked, seg ∈ (build g).segments) →
        ∃ s, findAmong g (.real x) (.real y) accepts looked = .ok s ∧
          Describes g (.real x) (.real y) accepts looked s := by
  constructor
  · rw [findClosest_eq]
    apply exists_describes hg
    intro seg hseg
    exact mem_of_mem_nearest hseg
  · intro looked hlooked
    exact exists_describes hg x y accepts hlooked

/-- A finite position on the equator. -/
def OnEquator (p : Point Exact) : Prop := p.lat = .real 0 ∧ p.lon.IsReal

/-- A road along the equator is charted. -/
theorem charted_cutRoad (word : Nat) : (Splicing.cutRoad word).Charted := by
  have hlevel : ∀ x, OnEquator (Exact.onParallel 0 x) := fun x => ⟨rfl, Exact.isReal_real x⟩
  obtain ⟨hnodes, hroads, -⟩ := RoadGraph.oneRoad_eq (Exact.onParallel 0 0) (Exact.onParallel 0 3)
    [Exact.onParallel 0 1, Exact.onParallel 0 2] (Splicing.levelLength 0 (Splicing.atInner 0)
      (Splicing.between 0)) word
  have hnodes : ∀ p ∈ (Splicing.cutRoad word).nodes, OnEquator p := by
    intro p hp
    rw [show (Splicing.cutRoad word).nodes = _ from hnodes] at hp
    rcases (by simpa using hp : p = Exact.onParallel 0 0 ∨ p = Exact.onParallel 0 3) with rfl | rfl
    · exact hlevel 0
    · exact hlevel 3
  have hpillars : ∀ r ∈ (Splicing.cutRoad word).roads, ∀ p ∈ r.pillars.points, OnEquator p := by
    intro r hr p hp
    rw [show (Splicing.cutRoad word).roads = _ from hroads] at hr
    obtain rfl := Array.mem_singleton.1 hr
    rcases (by simpa using hp : p = Exact.onParallel 0 1 ∨ p = Exact.onParallel 0 2) with rfl | rfl
    · exact hlevel 1
    · exact hlevel 2
  -- Every point is on the equator, which has not shrunk at all.
  have hall := RoadGraph.forall_fullGeometry (g := Splicing.cutRoad word)
    (P := OnEquator) ⟨Exact.zero_eq, 0, Exact.zero_eq⟩ hnodes hpillars
  have hreal : ∀ p, OnEquator p → p.lat.IsReal ∧ p.lon.IsReal := fun p hp => ⟨⟨0, hp.1⟩, hp.2⟩
  exact {
    nodes := fun p hp => hreal p (hnodes p hp)
    pillars := fun r hr p hp => hreal p (hpillars r hr p hp)
    offPoles := by
      intro seg hseg
      obtain ⟨hstart, hfinish⟩ := ends_of_mem hseg
      rw [(hall _ _ _ (List.mem_of_getElem? hstart)).1,
        (hall _ _ _ (List.mem_of_getElem? hfinish)).1, Exact.shrink_real, Exact.zero_eq]
      simp }

/-- A fix beside a road along the equator. -/
theorem snap_at_compared_foot_cutRoad :
    (Splicing.cutRoad 0).Charted ∧ ∃ s d, (build (Splicing.cutRoad 0)).findClosest
        (Splicing.cutRoad 0) (.real 1) (.real 2) (fun _ => true) = .ok s ∧ s.closest = some d ∧
      Describes (Splicing.cutRoad 0) (.real 1) (.real 2) (fun _ => true)
        ((build (Splicing.cutRoad 0)).nearest (.real 1) (.real 2)) s := by
  obtain ⟨⟨s, hs, hdescribes⟩, -⟩ := snap_at_compared_foot (charted_cutRoad 0) 1 2 fun _ => true
  obtain ⟨t, ht, hsome⟩ := exists_closest_cutRoad (.real 1) (.real 2)
  obtain rfl : t = s := Except.ok.inj (ht.symm.trans hs)
  obtain ⟨d, hd⟩ := Option.isSome_iff_exists.1 hsome
  exact ⟨charted_cutRoad 0, t, d, ht, hd, hdescribes⟩

end LocationIndex

end RoadSplice

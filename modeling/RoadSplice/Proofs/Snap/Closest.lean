/-
  RoadSplice.Proofs.Snap.Closest — what the index answers.

  The index holds the segments of a graph, so what it looks at lies on roads of that graph, and the
  place that it finds on a road is within the road's shape.  A snap that it returns names its road
  in the stored direction and has been located: locating it once more changes nothing.
-/
import RoadSplice.Snap.Index
import RoadSplice.Proofs.Overlay.Found

namespace RoadSplice

variable {K : Type} [Scalar K] {g : RoadGraph K}

/-! ## §1. Locating. -/

/-- The shape of a road in its stored direction. -/
theorem DirectedEdge.shape_stored {edge : EdgeId} {r : Road K} (hr : g.roads[edge]? = some r) :
    (⟨edge, r.a, r.b, false⟩ : DirectedEdge).shape g = .ok (g.fullGeometry edge false) := by
  unfold shape RoadGraph.edgeNodes
  simp only [hr]
  rfl

namespace Snap

/-- A snap at an end of its road is located there, and knows the node. -/
theorem located_tower {s : Snap K} {d : DirectedEdge} {shape : Polyline K} {here : Point K}
    (hd : s.closest = some d) (hshape : d.shape g = .ok shape)
    (hhere : shape.get? s.wayIndex = some here) (hpos : s.position = .tower) :
    s.located g = .ok { s with
      node := some (if s.wayIndex = 0 then d.base else d.adj), point := some here }.measured := by
  unfold located
  simp [hd, hshape, hhere, hpos, bind, Except.bind, pure, Except.pure]

/-- **What locating a snap does**, by its position. -/
theorem located_cases {s t : Snap K} (h : t.located g = .ok s) :
    ∃ d shape here, t.closest = some d ∧ d.shape g = .ok shape ∧
      shape.get? t.wayIndex = some here ∧
      ((t.position = .tower ∧ s = { t with
          node := some (if t.wayIndex = 0 then d.base else d.adj), point := some here }.measured) ∨
        (t.position = .pillar ∧ s = { t with point := some here }.measured) ∨
        (t.position = .edge ∧ ∃ next, shape.get? (t.wayIndex + 1) = some next ∧
          s = { t with point := some (footOn t.query here next shape.is3d) }.measured)) := by
  obtain ⟨d, shape, here, hd, hshape, hhere, -, -, -, hpoint⟩ := Splicing.located_inv h
  refine ⟨d, shape, here, hd, hshape, hhere, ?_⟩
  rcases hpoint with ⟨hpos, next, hnext, -⟩ | ⟨hne, -⟩
  · rw [Splicing.located_edge hd hshape hhere hnext hpos] at h
    exact .inr (.inr ⟨hpos, next, hnext, (Except.ok.inj h).symm⟩)
  · by_cases hpos : t.position = .tower
    · rw [located_tower hd hshape hhere hpos] at h
      exact .inl ⟨hpos, (Except.ok.inj h).symm⟩
    · have hpos : t.position = .pillar := by cases hcase : t.position <;> simp_all
      rw [Splicing.located_pillar hd hshape hhere hpos] at h
      exact .inr (.inl ⟨hpos, (Except.ok.inj h).symm⟩)

/-- **Locating a snap once more** changes nothing. -/
theorem located_located {s t : Snap K} (h : t.located g = .ok s) : s.located g = .ok s := by
  obtain ⟨d, shape, here, hd, hshape, hhere, hcases⟩ := located_cases h
  rcases hcases with ⟨hpos, rfl⟩ | ⟨hpos, rfl⟩ | ⟨hpos, next, hnext, rfl⟩
  · exact located_tower hd hshape hhere hpos
  · exact Splicing.located_pillar hd hshape hhere hpos
  · exact Splicing.located_edge hd hshape hhere hnext hpos

/-- A snap whose place is within the shape of its road can be located. -/
theorem exists_located {s : Snap K} {d : DirectedEdge} {shape : Polyline K}
    (hd : s.closest = some d) (hshape : d.shape g = .ok shape) (hlt : s.wayIndex < shape.length)
    (hedge : s.position = .edge → s.wayIndex + 1 < shape.length) : ∃ t, s.located g = .ok t := by
  obtain ⟨here, hhere⟩ : ∃ here, shape.get? s.wayIndex = some here :=
    ⟨_, List.getElem?_eq_getElem hlt⟩
  cases hpos : s.position with
  | tower => exact ⟨_, located_tower hd hshape hhere hpos⟩
  | pillar => exact ⟨_, Splicing.located_pillar hd hshape hhere hpos⟩
  | edge =>
    obtain ⟨next, hnext⟩ : ∃ next, shape.get? (s.wayIndex + 1) = some next :=
      ⟨_, List.getElem?_eq_getElem (hedge hpos)⟩
    exact ⟨_, Splicing.located_edge hd hshape hhere hnext hpos⟩

/-- A located snap at an end of its road knows the node there. -/
theorem node_of_located {s t : Snap K} {d : DirectedEdge} (h : t.located g = .ok s)
    (hpos : t.position = .tower) (hd : t.closest = some d) :
    s.node = some d.base ∨ s.node = some d.adj := by
  obtain ⟨d', shape, here, hd', -, -, hcases⟩ := located_cases h
  obtain rfl : d = d' := Option.some.inj (hd.symm.trans hd')
  rcases hcases with ⟨-, rfl⟩ | ⟨hpillar, -⟩ | ⟨hedge, -⟩
  · by_cases hfirst : t.wayIndex = 0
    · exact .inl (by simp [measured, hfirst])
    · exact .inr (by simp [measured, hfirst])
  · rw [hpos] at hpillar
    cases hpillar
  · rw [hpos] at hedge
    cases hedge

end Snap

/-! ## §2. Segments. -/

namespace LocationIndex

/-- **A segment of the index** lies on a road, between two points of its shape. -/
theorem exists_road_of_mem {seg : Segment K} (h : seg ∈ (build g).segments) :
    ∃ r, g.roads[seg.edge]? = some r ∧
      seg.index + 1 < (g.fullGeometry seg.edge false).length := by
  obtain ⟨edge, hedge, hseg⟩ := List.mem_flatMap.1 h
  obtain ⟨⟨ends, i⟩, hi, rfl⟩ := List.mem_map.1 hseg
  have hlt : edge < g.roads.size := List.mem_range.1 hedge
  refine ⟨g.roads[edge], Array.getElem?_eq_getElem hlt, ?_⟩
  have hi := (List.mem_zipIdx hi).2.1
  unfold Polyline.segments at hi
  rw [List.length_zip, List.length_drop] at hi
  show i + 1 < (g.fullGeometry edge false).points.length
  omega

/-- **A graph with a road** has segments. -/
theorem segments_ne_nil {edge : EdgeId} {r : Road K} (hr : g.roads[edge]? = some r) :
    (build g).segments ≠ [] := by
  have hlong : 0 < (g.fullGeometry edge false).segments.length := by
    unfold RoadGraph.fullGeometry Polyline.segments
    simp [hr]
  have hpos : 0 < (segmentsOf g edge).length := by
    unfold segmentsOf
    rwa [List.length_map, List.length_zipIdx]
  have hlt : edge < g.edgeCount := (Array.getElem?_eq_some_iff.1 hr).1
  exact List.ne_nil_of_mem
    (List.mem_flatMap.2 ⟨edge, List.mem_range.2 hlt, List.getElem_mem hpos⟩)

/-- The nearest segments are segments of the index. -/
theorem mem_of_mem_nearest {index : LocationIndex K} {lat lon : K} {seg : Segment K}
    (h : seg ∈ index.nearest lat lon) : seg ∈ index.segments := by
  obtain ⟨⟨d, seg'⟩, hmem, rfl⟩ := List.mem_map.1 h
  obtain ⟨seg, hseg, heq⟩ := List.mem_map.1 (List.mem_mergeSort.1 (List.mem_of_mem_take hmem))
  obtain ⟨-, rfl⟩ : _ = d ∧ seg = seg' := by simpa using heq
  exact hseg

/-- Where there are segments there are nearest ones. -/
theorem nearest_ne_nil {index : LocationIndex K} (h : index.segments ≠ []) (lat lon : K) :
    index.nearest lat lon ≠ [] := by
  have hpos : 0 < index.segments.length := List.length_pos_iff.2 h
  refine List.length_pos_iff.1 ?_
  unfold nearest candidates
  simp only [List.length_map, List.length_take, List.length_mergeSort]
  omega

end LocationIndex

/-! ## §3. Candidates. -/

/-- **The best candidate** is one of those looked at. -/
theorem Candidate.mem_of_foldl_nearer {cs : List (Candidate K)} {best : Option (Candidate K)}
    {c : Candidate K} (h : cs.foldl nearer best = some c) : c ∈ cs ∨ best = some c := by
  induction cs generalizing best with
  | nil => exact .inr h
  | cons c' cs ih =>
    rcases ih h with hmem | hbest
    · exact .inl (List.mem_cons_of_mem _ hmem)
    · unfold nearer at hbest
      cases best with
      | none => exact .inl (by simp [Option.some.inj hbest])
      | some b =>
        simp only at hbest
        split at hbest
        · exact .inl (by simp [Option.some.inj hbest])
        · exact .inr hbest

/-- Of some candidates one is the best. -/
theorem Candidate.exists_foldl_nearer {cs : List (Candidate K)} {best : Option (Candidate K)}
    (h : cs ≠ [] ∨ best.isSome = true) : ∃ c, cs.foldl nearer best = some c := by
  induction cs generalizing best with
  | nil => exact Option.isSome_iff_exists.1 (h.resolve_left fun hne => hne rfl)
  | cons c' cs ih =>
    refine ih (.inr ?_)
    unfold nearer
    cases best with
    | none => rfl
    | some b =>
      simp only
      split <;> rfl

/-- **The place of a candidate** is within the shape of its road. -/
theorem Candidate.place_lt {c : Candidate K} {points i : Nat} {position : Position}
    (h : c.segment.index + 1 < points) (hplace : c.place points = (i, position)) :
    i < points ∧ (position = .edge → i + 1 < points) := by
  unfold place at hplace
  simp only at hplace
  split at hplace
  · split at hplace <;> obtain ⟨rfl, rfl⟩ := Prod.mk.inj hplace <;>
      exact ⟨by omega, fun hedge => by cases hedge⟩
  · split at hplace
    · split at hplace <;> obtain ⟨rfl, rfl⟩ := Prod.mk.inj hplace <;>
        exact ⟨by omega, fun hedge => by cases hedge⟩
    · obtain ⟨rfl, rfl⟩ := Prod.mk.inj hplace
      exact ⟨by omega, fun _ => h⟩

/-! ## §4. Answers. -/

namespace LocationIndex

variable {lat lon : K} {accepts : EdgeView K → Bool}

/-- The best of the candidates on accepted roads, among the segments that are looked at. -/
def chosen (g : RoadGraph K) (lat lon : K) (accepts : EdgeView K → Bool)
    (looked : List (Segment K)) : Except (Error K) (Option (Candidate K)) := do
  let seen ← looked.filterM fun s => return accepts (← g.edge s.edge none)
  return (seen.map fun s => s.candidate lat lon).foldl Candidate.nearer none

/-- What is found when given segments are looked at. -/
def findAmong (g : RoadGraph K) (lat lon : K) (accepts : EdgeView K → Bool)
    (looked : List (Segment K)) : Except (Error K) (Snap K) := do
  match ← chosen g lat lon accepts looked with
  | none => return Snap.unplaced (Point.flat lat lon)
  | some c =>
    let (a, b) ← g.edgeNodes c.segment.edge
    let (wayIndex, position) := c.place (g.fullGeometry c.segment.edge false).length
    (Snap.onEdge (Point.flat lat lon) ⟨c.segment.edge, a, b, false⟩ wayIndex position).located g

/-- **The index looks at its nearest segments.** -/
theorem findClosest_eq (index : LocationIndex K) (g : RoadGraph K) (lat lon : K)
    (accepts : EdgeView K → Bool) : index.findClosest g lat lon accepts =
      findAmong g lat lon accepts (index.nearest lat lon) := by
  unfold findClosest findAmong chosen
  cases (index.nearest lat lon).filterM fun s => do return accepts (← g.edge s.edge none) <;> rfl

variable {looked : List (Segment K)}

/-- **What is found**, whichever segments are looked at: no road, or a road in its stored direction,
and the snap has been located on it. -/
theorem findAmong_inv {s : Snap K} (h : findAmong g lat lon accepts looked = .ok s) :
    s.closest = none ∨ ∃ edge r, g.roads[edge]? = some r ∧
      s.closest = some ⟨edge, r.a, r.b, false⟩ ∧ s.located g = .ok s := by
  unfold findAmong at h
  obtain ⟨best, -, h⟩ := except_bind.1 h
  -- The road of the best segment, if there is one, is the closest.
  cases best with
  | none => exact .inl (Except.ok.inj h ▸ rfl)
  | some c =>
    obtain ⟨⟨a, b⟩, hnodes, h⟩ := except_bind.1 h
    unfold RoadGraph.edgeNodes at hnodes
    cases hr : g.roads[c.segment.edge]? with
    | none => simp [hr] at hnodes
    | some r =>
      simp only [hr, Except.ok.injEq, Prod.mk.injEq] at hnodes
      obtain ⟨rfl, rfl⟩ := hnodes
      obtain ⟨-, -, -, -, -, -, hclosest, -⟩ := Splicing.located_inv h
      exact .inr ⟨c.segment.edge, r, hr, hclosest, Snap.located_located h⟩

/-- **A segment of a road** yields a snap that can be located, on the road as it is stored. -/
theorem exists_located_of_mem {seg : Segment K} (hseg : seg ∈ (build g).segments) (lat lon : K) :
    ∃ r, g.roads[seg.edge]? = some r ∧
      let place := (seg.candidate lat lon).place (g.fullGeometry seg.edge false).length
      ∃ t, (Snap.onEdge (Point.flat lat lon) ⟨seg.edge, r.a, r.b, false⟩ place.1
        place.2).located g = .ok t ∧ t.closest = some ⟨seg.edge, r.a, r.b, false⟩ := by
  obtain ⟨r, hr, hlt⟩ := exists_road_of_mem hseg
  have hshape := DirectedEdge.shape_stored hr
  obtain ⟨hin, hedge⟩ := Candidate.place_lt (c := seg.candidate lat lon) hlt rfl
  obtain ⟨t, ht⟩ := Snap.exists_located (s := Snap.onEdge (Point.flat lat lon)
    ⟨seg.edge, r.a, r.b, false⟩ ((seg.candidate lat lon).place _).1
    ((seg.candidate lat lon).place _).2) rfl hshape hin hedge
  obtain ⟨-, -, -, -, -, -, hclosest, -⟩ := Splicing.located_inv ht
  exact ⟨r, hr, t, ht, hclosest⟩

theorem chosen_of_seen {seen : List (Segment K)}
    (hseen : looked.filterM (fun s => do return accepts (← g.edge s.edge none)) = .ok seen) :
    chosen g lat lon accepts looked =
      .ok ((seen.map fun s => s.candidate lat lon).foldl Candidate.nearer none) := by
  unfold chosen
  rw [hseen]
  rfl

/-- Where nothing is chosen, nothing is found. -/
theorem findAmong_of_none (h : chosen g lat lon accepts looked = .ok none) :
    findAmong g lat lon accepts looked = .ok (Snap.unplaced (Point.flat lat lon)) := by
  unfold findAmong
  rw [h]
  rfl

/-- What is found is the chosen candidate, placed on its road. -/
theorem findAmong_of_chosen {c : Candidate K} (h : chosen g lat lon accepts looked = .ok (some c))
    {a b : NodeId} (hnodes : g.edgeNodes c.segment.edge = .ok (a, b)) :
    findAmong g lat lon accepts looked =
      (Snap.onEdge (Point.flat lat lon) ⟨c.segment.edge, a, b, false⟩
        (c.place (g.fullGeometry c.segment.edge false).length).1
        (c.place (g.fullGeometry c.segment.edge false).length).2).located g := by
  unfold findAmong
  rw [h]
  show (g.edgeNodes c.segment.edge >>= _) = _
  rw [hnodes]
  rfl

/-- What the index finds is the best of the candidates that it looks at. -/
theorem findClosest_of_best {index : LocationIndex K} {seen : List (Segment K)}
    (hseen : (index.nearest lat lon).filterM
      (fun s => do return accepts (← g.edge s.edge none)) = .ok seen)
    {c : Candidate K}
    (hbest : (seen.map fun s => s.candidate lat lon).foldl Candidate.nearer none = some c)
    {a b : NodeId} (hnodes : g.edgeNodes c.segment.edge = .ok (a, b)) :
    index.findClosest g lat lon accepts =
      (Snap.onEdge (Point.flat lat lon) ⟨c.segment.edge, a, b, false⟩
        (c.place (g.fullGeometry c.segment.edge false).length).1
        (c.place (g.fullGeometry c.segment.edge false).length).2).located g := by
  rw [findClosest_eq]
  exact findAmong_of_chosen ((chosen_of_seen hseen).trans (congrArg Except.ok hbest)) hnodes

/-- **A road that the filter accepts**, seen in its stored direction. -/
def Accepted (g : RoadGraph K) (accepts : EdgeView K → Bool) (edge : EdgeId) : Prop :=
  ∃ v, g.edge edge none = .ok v ∧ accepts v = true

open Classical in
/-- **The choice among segments of roads**: nothing where every road is refused, and otherwise the
best of the candidates on accepted roads. -/
theorem chosen_eq (hlooked : ∀ seg ∈ looked, seg ∈ (build g).segments) :
    chosen g lat lon accepts looked =
      .ok (((looked.filter fun seg => decide (Accepted g accepts seg.edge)).map fun s =>
        s.candidate lat lon).foldl Candidate.nearer none) := by
  refine chosen_of_seen (filterM_ok fun seg hseg => ?_)
  obtain ⟨r, hr, -⟩ := exists_road_of_mem (hlooked seg hseg)
  have hview := RoadGraph.edge_stored hr
  have haccepted : Accepted g accepts seg.edge ↔
      accepts (g.view ⟨seg.edge, r.a, r.b, false⟩) = true := by
    unfold Accepted
    rw [hview]
    simp
  rw [hview]
  show Except.ok _ = _
  simp [haccepted]

/-- **What is chosen**: nothing where every road is refused, and otherwise the candidate of a
segment on an accepted road. -/
theorem chosen_cases (lat lon : K) (accepts : EdgeView K → Bool)
    (hlooked : ∀ seg ∈ looked, seg ∈ (build g).segments) :
    (chosen g lat lon accepts looked = .ok none ∧
        ∀ seg ∈ looked, ¬ Accepted g accepts seg.edge) ∨
      ∃ seg ∈ looked, Accepted g accepts seg.edge ∧
        chosen g lat lon accepts looked = .ok (some (seg.candidate lat lon)) := by
  classical
  rw [chosen_eq hlooked]
  -- The fold answers nothing only for an empty list.
  cases hbest : ((looked.filter fun seg => decide (Accepted g accepts seg.edge)).map fun s =>
      s.candidate lat lon).foldl Candidate.nearer none with
  | none =>
    refine .inl ⟨rfl, fun seg hseg hacc => ?_⟩
    have hkept : seg ∈ looked.filter fun seg => decide (Accepted g accepts seg.edge) :=
      List.mem_filter.2 ⟨hseg, decide_eq_true hacc⟩
    have hne := List.ne_nil_of_mem (List.mem_map_of_mem (f := fun s => s.candidate lat lon) hkept)
    obtain ⟨c, hc⟩ := Candidate.exists_foldl_nearer (.inl hne)
    rw [hc] at hbest
    cases hbest
  | some c =>
    have hmem := (Candidate.mem_of_foldl_nearer hbest).resolve_right (by simp)
    obtain ⟨seg, hseg, rfl⟩ := List.mem_map.1 hmem
    obtain ⟨hlooked, hacc⟩ := List.mem_filter.1 hseg
    exact .inr ⟨seg, hlooked, of_decide_eq_true hacc, rfl⟩

/-- **A choice among segments of a graph** is located on its road. -/
theorem exists_findAmong {seg : Segment K} (hseg : seg ∈ (build g).segments)
    (h : chosen g lat lon accepts looked = .ok (some (seg.candidate lat lon))) :
    ∃ r, g.roads[seg.edge]? = some r ∧
      let place := (seg.candidate lat lon).place (g.fullGeometry seg.edge false).length
      ∃ s, findAmong g lat lon accepts looked = .ok s ∧
        (Snap.onEdge (Point.flat lat lon) ⟨seg.edge, r.a, r.b, false⟩ place.1
          place.2).located g = .ok s ∧ s.closest = some ⟨seg.edge, r.a, r.b, false⟩ := by
  obtain ⟨r, hr, s, hs, hclosest⟩ := exists_located_of_mem hseg lat lon
  have hnodes : g.edgeNodes seg.edge = .ok (r.a, r.b) := by
    unfold RoadGraph.edgeNodes
    rw [hr]
  exact ⟨r, hr, s, (findAmong_of_chosen h hnodes).trans hs, hs, hclosest⟩

/-- **The index of a graph always answers**, and names a road if it is asked for any road and there
is one. -/
theorem exists_findClosest (g : RoadGraph K) (lat lon : K) (accepts : EdgeView K → Bool) :
    ∃ s, (build g).findClosest g lat lon accepts = .ok s ∧
      ((∀ v, accepts v = true) → (build g).segments ≠ [] → s.closest.isSome = true) := by
  have hlooked : ∀ seg ∈ (build g).nearest lat lon, seg ∈ (build g).segments :=
    fun seg => mem_of_mem_nearest
  rw [findClosest_eq]
  rcases chosen_cases lat lon accepts hlooked with ⟨hnone, hrefused⟩ | ⟨seg, hseg, -, hchosen⟩
  · refine ⟨_, findAmong_of_none hnone, fun hall hne => ?_⟩
    -- A filter that accepts every road accepts that of the first segment.
    obtain ⟨seg, hseg⟩ := List.exists_mem_of_ne_nil _ (nearest_ne_nil hne lat lon)
    obtain ⟨r, hr, -⟩ := exists_road_of_mem (hlooked seg hseg)
    exact absurd ⟨_, RoadGraph.edge_stored hr, hall _⟩ (hrefused seg hseg)
  · obtain ⟨r, -, s, hs, -, hclosest⟩ := exists_findAmong (hlooked seg hseg) hchosen
    exact ⟨s, hs, fun _ _ => by rw [hclosest]; rfl⟩

/-- Any fix is snapped to the only road of a graph. -/
theorem exists_closest_cutRoad (lat lon : Exact) :
    ∃ s, (build (Splicing.cutRoad 0)).findClosest (Splicing.cutRoad 0) lat lon (fun _ => true) =
      .ok s ∧ s.closest.isSome = true := by
  obtain ⟨s, hs, hsome⟩ := exists_findClosest (Splicing.cutRoad 0) lat lon fun _ => true
  refine ⟨s, hs, hsome (fun _ => rfl) ?_⟩
  obtain ⟨r, hr, -⟩ := RoadGraph.hasDirection_onlyRoad (Exact.onParallel 0 0) (Exact.onParallel 0 3)
    [Exact.onParallel 0 1, Exact.onParallel 0 2] (Splicing.levelLength 0 (Splicing.atInner 0)
      (Splicing.between 0)) 0
  exact segments_ne_nil hr

end LocationIndex

end RoadSplice

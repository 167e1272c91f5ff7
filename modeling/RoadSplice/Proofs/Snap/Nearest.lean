/-
  RoadSplice.Proofs.Snap.Nearest — how near the road is that the index answers.

  An index hands out its segments nearest first, in plain degrees, and only the first few are
  looked at.  Of those that lie on accepted roads the one that is nearest on the ground is chosen.
  A road whose segments all come later is not seen, accepted or not; no segment comes later that
  has few others as near.
-/
import RoadSplice.Proofs.Snap.Closest

namespace RoadSplice

open Scalar

variable {K : Type} [Scalar K]

/-! ## §1. The best candidate. -/

/-- **The best candidate is not beaten.**  It is the first one, or nearer than the best so far
that it has replaced. -/
theorem Candidate.not_nearer_of_foldl_nearer [OrderedScalar K] [IsTrans K (· < ·)]
    {cs : List (Candidate K)} {best : Option (Candidate K)} {c : Candidate K}
    (h : cs.foldl nearer best = some c) :
    (∀ x ∈ cs, ¬ x.distance < c.distance) ∧
      ∀ b, best = some b → c = b ∨ c.distance < b.distance := by
  have hnot : ∀ b : Candidate K, c = b ∨ c.distance < b.distance → ¬ b.distance < c.distance := by
    rintro b (rfl | hlt)
    · exact fun h => OrderedScalar.lt_asymm _ _ h h
    · exact OrderedScalar.lt_asymm _ _ hlt
  -- Not being below cannot be chained where a value is not a number, but being below can.
  have hchain : ∀ x y z : K, x < y → y < z → x < z := IsTrans.trans
  induction cs generalizing best with
  | nil =>
    refine ⟨by simp, fun b hb => .inl ?_⟩
    exact Option.some.inj (h.symm.trans hb)
  | cons x cs ih =>
    obtain ⟨hrest, hbest⟩ := ih h
    rw [List.forall_mem_cons]
    cases best with
    | none => exact ⟨⟨hnot x (hbest x rfl), hrest⟩, by simp⟩
    | some b =>
      by_cases hx : x.distance < b.distance
      · -- The best one is at least as good as the new one, which has replaced the old one.
        have hc := hbest x (if_pos hx)
        refine ⟨⟨hnot x hc, hrest⟩, ?_⟩
        intro b' hb'
        obtain rfl := Option.some.inj hb'
        rcases hc with rfl | hlt
        · exact .inr hx
        · exact .inr (hchain _ _ _ hlt hx)
      · have hc := hbest b (if_neg hx)
        refine ⟨⟨?_, hrest⟩, ?_⟩
        · intro hlt
          rcases hc with rfl | hcb
          · exact hx hlt
          · exact hx (hchain _ _ _ hlt hcb)
        · intro b' hb'
          obtain rfl := Option.some.inj hb'
          exact hc

namespace LocationIndex

variable {g : RoadGraph K} {lat lon : K} {accepts : EdgeView K → Bool}

/-! ## §2. What is looked at. -/

/-- One segment is no farther from a position than another, in degrees. -/
def asNear (lat lon : K) (s t : Segment K) : Bool :=
  (order (s.degreeDistance lat lon) (t.degreeDistance lat lon)).isLE

/-- **An order in which an index may hand out its segments**: each comes once, and none before one
that is nearer in degrees. -/
structure Ranks (index : LocationIndex K) (lat lon : K) (stream : List (Segment K)) : Prop where
  perm : stream.Perm index.segments
  sorted : stream.Pairwise fun s t => asNear lat lon s t = true

/-- The nearest segments are the first ones in order. -/
theorem nearest_eq (index : LocationIndex K) (lat lon : K) :
    index.nearest lat lon = (index.segments.mergeSort (asNear lat lon)).take candidates := by
  unfold nearest
  rw [List.map_take, List.map_mergeSort (s := asNear lat lon), List.map_map]
  · show (List.mergeSort (index.segments.map fun s => s) _).take candidates = _
    rw [List.map_id']
  · intro a ha b hb
    obtain ⟨s, -, rfl⟩ := List.mem_map.1 ha
    obtain ⟨t, -, rfl⟩ := List.mem_map.1 hb
    rfl

/-- **The order of the index** is one in which it may hand out its segments. -/
theorem ranks_mergeSort [OrderedScalar K] (index : LocationIndex K) (lat lon : K) :
    index.Ranks lat lon (index.segments.mergeSort (asNear lat lon)) where
  perm := List.mergeSort_perm _ _
  sorted := by
    apply List.pairwise_mergeSort
    · intro s t u hst htu
      exact OrderedScalar.order_trans _ _ _ hst htu
    · intro s t
      rw [Bool.or_eq_true]
      exact OrderedScalar.order_total _ _

theorem asNear_self [OrderedScalar K] (s : Segment K) : asNear lat lon s s = true := by
  have h := fun x : K => fun hx : x < x => OrderedScalar.lt_asymm x x hx hx
  unfold asNear order
  rw [if_neg (h _), if_neg (h _)]
  simp

/-- **A segment that few others are as near as** is looked at. -/
theorem Ranks.mem_take [OrderedScalar K] {index : LocationIndex K} {stream : List (Segment K)}
    (h : index.Ranks lat lon stream) {seg : Segment K} (hseg : seg ∈ index.segments)
    (hfew : index.segments.countP (fun t => asNear lat lon t seg) ≤ candidates) :
    seg ∈ stream.take candidates := by
  rw [← h.perm.countP_eq] at hfew
  have hmem : seg ∈ stream.take candidates ++ stream.drop candidates := by
    rw [List.take_append_drop]
    exact h.perm.mem_iff.2 hseg
  refine (List.mem_append.1 hmem).resolve_right fun hlater => ?_
  -- All that are looked at come before the segment, so they are as near; and it is as near itself.
  have hsorted := h.sorted
  rw [← List.take_append_drop candidates stream, List.pairwise_append] at hsorted
  have hlooked : (stream.take candidates).countP (fun t => asNear lat lon t seg) =
      (stream.take candidates).length :=
    List.countP_eq_length.2 fun t ht => hsorted.2.2 t ht seg hlater
  have hself : 0 < (stream.drop candidates).countP fun t => asNear lat lon t seg :=
    List.countP_pos_iff.2 ⟨seg, hlater, asNear_self seg⟩
  have hlong : 0 < (stream.drop candidates).length := List.length_pos_of_mem hlater
  rw [← List.take_append_drop candidates stream, List.countP_append, hlooked] at hfew
  rw [List.length_drop] at hlong
  rw [List.length_take] at hfew
  omega

/-! ## §3. What is found. -/

/-- **The nearest accepted road of some segments**: a snap names no road exactly where every road is
refused, and otherwise an accepted one with a segment such that no segment of an accepted road is
nearer on the ground. -/
structure NearestAmong (g : RoadGraph K) (lat lon : K) (accepts : EdgeView K → Bool)
    (looked : List (Segment K)) (s : Snap K) : Prop where
  none_iff : s.closest = none ↔ ∀ seg ∈ looked, ¬ Accepted g accepts seg.edge
  nearest : ∀ d, s.closest = some d → Accepted g accepts d.edge ∧
    ∃ seg ∈ looked, seg.edge = d.edge ∧ ∀ other ∈ looked, Accepted g accepts other.edge →
      ¬ (other.candidate lat lon).distance < (seg.candidate lat lon).distance

/-- **Looking at segments of a graph** always answers, with the nearest accepted road of them. -/
theorem exists_nearestAmong [OrderedScalar K] [IsTrans K (· < ·)] (lat lon : K)
    (accepts : EdgeView K → Bool) {looked : List (Segment K)}
    (hlooked : ∀ seg ∈ looked, seg ∈ (build g).segments) :
    ∃ s, findAmong g lat lon accepts looked = .ok s ∧ NearestAmong g lat lon accepts looked s := by
  rcases chosen_cases lat lon accepts hlooked with
    ⟨hnone, hrefused⟩ | ⟨seg, hseg, hacc, hchosen⟩
  · refine ⟨_, findAmong_of_none hnone, ?_, ?_⟩
    · exact ⟨fun _ => hrefused, fun _ => rfl⟩
    · intro d hd
      cases hd
  · obtain ⟨r, -, s, hs, -, hclosest⟩ := exists_findAmong (hlooked seg hseg) hchosen
    refine ⟨s, hs, ?_, ?_⟩
    · rw [hclosest]
      constructor
      · intro h
        cases h
      · intro h
        exact absurd hacc (h seg hseg)
    · intro d hd
      rw [hclosest] at hd
      obtain rfl := Option.some.inj hd
      refine ⟨hacc, seg, hseg, rfl, ?_⟩
      intro other hother hacc'
      rw [chosen_eq hlooked] at hchosen
      refine (Candidate.not_nearer_of_foldl_nearer (Except.ok.inj hchosen)).1 _ ?_
      refine List.mem_map_of_mem (f := fun s => s.candidate lat lon) (List.mem_filter.2 ⟨hother, ?_⟩)
      simpa using hacc'

/-- The order of the segments does not matter. -/
theorem NearestAmong.of_perm {looked looked' : List (Segment K)} {s : Snap K}
    (h : NearestAmong g lat lon accepts looked s) (hperm : looked.Perm looked') :
    NearestAmong g lat lon accepts looked' s where
  none_iff := by
    rw [h.none_iff]
    simp only [hperm.mem_iff]
  nearest d hd := by
    have hnearest := h.nearest d hd
    simp only [hperm.mem_iff] at hnearest
    exact hnearest

/-- **A graph of few segments** is looked at as a whole. -/
theorem exists_nearestAmong_of_few [OrderedScalar K] [IsTrans K (· < ·)]
    (hfew : (build g).size ≤ candidates) :
    ∃ s, (build g).findClosest g lat lon accepts = .ok s ∧
      NearestAmong g lat lon accepts (build g).segments s := by
  have hranks := ranks_mergeSort (build g) lat lon
  obtain ⟨s, hs, hnearest⟩ := exists_nearestAmong lat lon accepts fun seg hseg =>
    hranks.perm.mem_iff.1 hseg
  refine ⟨s, ?_, hnearest.of_perm hranks.perm⟩
  rw [findClosest_eq, nearest_eq, List.take_of_length_le]
  · exact hs
  · rw [List.length_mergeSort]
    exact hfew

/-- **What a fix is snapped to.**  However segments that are equally far are put in order, the
index answers with the nearest accepted road among the first segments in that order, and they
include every segment that at most as many segments as are looked at are as near as. -/
theorem snap_nearest_looked_at [OrderedScalar K] [IsTrans K (· < ·)] (g : RoadGraph K) (lat lon : K)
    (accepts : EdgeView K → Bool) :
    (∃ stream, (build g).Ranks lat lon stream ∧ (build g).findClosest g lat lon accepts =
        findAmong g lat lon accepts (stream.take candidates)) ∧
      ∀ stream, (build g).Ranks lat lon stream →
        (∃ s, findAmong g lat lon accepts (stream.take candidates) = .ok s ∧
          NearestAmong g lat lon accepts (stream.take candidates) s) ∧
        ∀ seg ∈ (build g).segments,
          (build g).segments.countP (fun t => asNear lat lon t seg) ≤ candidates →
            seg ∈ stream.take candidates := by
  refine ⟨⟨_, ranks_mergeSort (build g) lat lon, ?_⟩, fun stream h => ⟨?_, ?_⟩⟩
  · rw [findClosest_eq, nearest_eq]
  · apply exists_nearestAmong
    intro seg hseg
    exact h.perm.mem_iff.1 (List.mem_of_mem_take hseg)
  · intro seg hseg hfew
    exact h.mem_take hseg hfew

/-- A fix is snapped to a road. -/
theorem snap_nearest_looked_at_cutRoad :
    ∃ s stream, (build (Splicing.cutRoad 0)).Ranks 0 0 stream ∧
      (build (Splicing.cutRoad 0)).findClosest (Splicing.cutRoad 0) 0 0 (fun _ => true) = .ok s ∧
      s.closest.isSome = true ∧
      NearestAmong (Splicing.cutRoad 0) 0 0 (fun _ => true) (stream.take candidates) s := by
  obtain ⟨⟨stream, hranks, heq⟩, hall⟩ :=
    snap_nearest_looked_at (Splicing.cutRoad 0) 0 0 fun _ => true
  obtain ⟨⟨s, hs, hnearest⟩, -⟩ := hall stream hranks
  obtain ⟨t, ht, hsome⟩ := exists_closest_cutRoad 0 0
  have hfound := heq.trans hs
  obtain rfl : t = s := Except.ok.inj (ht.symm.trans hfound)
  exact ⟨t, stream, hranks, ht, hsome, hnearest⟩

end LocationIndex

end RoadSplice

/-
  RoadSplice.Proofs.Overlay.Sides — the side from which a snap reached its road.

  A place on a road can be named from either end.  Where the road has a direction of its own, both
  names are turned to the same one before anything else is done, so overlay and snaps do not depend
  on the side.  A loop has a direction of its own if it has two inner points or more and the first
  and the last of them differ in latitude; on other loops a snap stays as it is.
-/
import RoadSplice.Proofs.Overlay.Computed

namespace RoadSplice

variable {K : Type} [Scalar K] {g : RoadGraph K}

/-! ## §1. Two names for one place. -/

/-- **The snap named from the other end** of its road. -/
def Snap.fromOtherSide (g : RoadGraph K) (s : Snap K) : Snap K :=
  match s.closest with
  | none => s
  | some d =>
    let points := (g.fullGeometry d.edge d.reverse).length
    { s with
      closest := some d.reversed
      wayIndex := points - (if s.position = .pillar then 1 else 2) - s.wayIndex }

@[simp]
theorem Snap.fromOtherSide_position (s : Snap K) : (s.fromOtherSide g).position = s.position := by
  unfold fromOtherSide
  cases s.closest <;> rfl

/-- Naming the road from the other end does not take it away. -/
@[simp]
theorem Snap.isNone_closest_fromOtherSide (s : Snap K) :
    (s.fromOtherSide g).closest.isNone = s.closest.isNone := by
  unfold fromOtherSide
  cases hd : s.closest with
  | none => simp [hd]
  | some d => rfl

/-- **A road with a direction of its own**: its ends differ, or it has two inner points or more and
the first and the last of them differ in latitude. -/
def OwnDirection (g : RoadGraph K) (d : DirectedEdge) : Prop :=
  d.base ≠ d.adj ∨ ∃ shape first last, d.shape g = .ok shape ∧ 3 < shape.length ∧
    shape.get? 1 = some first ∧ shape.get? (shape.length - 2) = some last ∧
    (first.lat < last.lat ∨ last.lat < first.lat)

/-- **One of the two directions** of such a road runs backwards, and the other one does not. -/
theorem OwnDirection.runsBackwards [OrderedScalar K] {d : DirectedEdge} (h : OwnDirection g d) :
    ∃ b, Snap.runsBackwards g d = .ok b ∧ Snap.runsBackwards g d.reversed = .ok (!b) := by
  unfold Snap.runsBackwards
  by_cases hends : d.base = d.adj
  · obtain ⟨shape, first, last, hshape, hlong, hfirst, hlast, hlat⟩ :=
      h.resolve_left fun hne => hne hends
    rw [if_pos hends, if_pos (show d.reversed.base = d.reversed.adj from hends.symm), hshape,
      DirectedEdge.shape_reversed hshape]
    -- The first and the last inner point change places.
    have hfirst' : shape.reverse.get? 1 = some last :=
      (shape.get?_reverse (j := shape.length - 2) (by omega)).trans hlast
    have hlast' : shape.reverse.get? (shape.length - 2) = some first :=
      (shape.get?_reverse (j := 1) (by omega)).trans hfirst
    refine ⟨decide (last.lat < first.lat), ?_, ?_⟩
    · show (if 3 < shape.length then _ else _) = _
      rw [if_pos hlong, hfirst, hlast]
      rfl
    · show (if 3 < shape.reverse.length then _ else _) = _
      rw [Polyline.length_reverse, if_pos hlong, hfirst', hlast']
      show Except.ok (decide (first.lat < last.lat)) = _
      rcases hlat with hlt | hlt
      · simp [hlt, OrderedScalar.lt_asymm _ _ hlt]
      · simp [hlt, OrderedScalar.lt_asymm _ _ hlt]
  · rw [if_neg hends, if_neg (show ¬ d.reversed.base = d.reversed.adj from Ne.symm hends)]
    refine ⟨decide (d.adj < d.base), rfl, ?_⟩
    show Except.ok (decide (d.base < d.adj)) = _
    rcases Nat.lt_or_gt_of_ne hends with hlt | hlt
    · simp [hlt, Nat.lt_asymm hlt]
    · simp [hlt, Nat.lt_asymm hlt]

theorem DirectedEdge.eq_of_shape {d : DirectedEdge} {shape : Polyline K}
    (h : d.shape g = .ok shape) : g.fullGeometry d.edge d.reverse = shape := by
  unfold DirectedEdge.shape at h
  obtain ⟨ends, -, hshape⟩ := except_bind.1 h
  exact Except.ok.inj hshape

/-- **Both names of a place** are turned to the same one. -/
theorem Snap.Computed.normalized_fromOtherSide [OrderedScalar K] {s : Snap K} {d : DirectedEdge}
    (h : s.Computed g) (hpos : s.position ≠ .tower) (hd : s.closest = some d)
    (hown : OwnDirection g d) :
    ∃ t, s.normalized g = .ok t ∧ (s.fromOtherSide g).normalized g = .ok t := by
  obtain ⟨d', hd', hroad⟩ := h.closest
  obtain rfl : d = d' := Option.some.inj (hd.symm.trans hd')
  obtain ⟨shape, hshape⟩ := hroad.exists_shape
  have hother : s.fromOtherSide g = { s with
      closest := some d.reversed
      wayIndex := shape.length - (if s.position = .pillar then 1 else 2) - s.wayIndex } := by
    unfold fromOtherSide
    simp only [hd, DirectedEdge.eq_of_shape hshape]
  -- The way index of an inner point is below the last one, that of a segment one less.
  have hplace : s.wayIndex + (if s.position = .pillar then 1 else 2) ≤ shape.length := by
    obtain ⟨hlt, hedge⟩ := h.place_lt hd hshape
    split
    · exact hlt
    · exact hedge (by cases hcase : s.position <;> simp_all)
  obtain ⟨b, hback, hback'⟩ := hown.runsBackwards
  rw [hother]
  cases b with
  | false =>
    have htwice : d.reversed.reversed = d := by simp [DirectedEdge.reversed]
    refine ⟨s, Splicing.normalized_self hback hd, ?_⟩
    have hindex : indexFromEnd { s with
        closest := some d.reversed
        wayIndex := shape.length - (if s.position = .pillar then 1 else 2) - s.wayIndex }
          shape.length = some s.wayIndex := by
      show (if _ ≤ shape.length then some (shape.length - _) else none) = _
      rw [if_pos (by dsimp only; omega)]
      congr 1
      dsimp only
      omega
    refine (normalized_of_backwards rfl hback' (htwice.symm ▸ hshape) hindex).trans ?_
    rw [htwice, ← hd]
  | true =>
    have hindex : s.indexFromEnd shape.reverse.length =
        some (shape.length - (if s.position = .pillar then 1 else 2) - s.wayIndex) := by
      unfold indexFromEnd
      rw [Polyline.length_reverse, if_pos hplace]
      congr 1
      omega
    exact ⟨_, normalized_of_backwards hd hback (DirectedEdge.shape_reversed hshape) hindex,
      Splicing.normalized_self hback' rfl⟩

/-! ## §2. The overlay. -/

namespace Splicing

variable {w : Splicing K} {snaps snaps' : Array (Snap K)}

theorem yields_prepare_tower {i : Nat} {s : Snap K} (hs : w.snaps[i]? = some s)
    (hpos : s.position = .tower) (groups : Groups) : Yields (prepare g groups i) w groups w := by
  unfold prepare
  simp only [yields_bind, yields_snap]
  refine ⟨s, w, ⟨hs, rfl⟩, ?_⟩
  rw [if_pos hpos]
  exact yields_pure.2 ⟨rfl, rfl⟩

/-- Preparing a snap that has a point turns it and files it. -/
theorem yields_prepare_turned {i : Nat} {s t : Snap K} {d : DirectedEdge}
    (hs : w.snaps[i]? = some s) (hpos : s.position ≠ .tower) (ht : s.normalized g = .ok t)
    (hpoint : t.point.isNone = false) (hd : t.closest = some d) (groups : Groups) :
    Yields (prepare g groups i) w (file d.edge i groups)
      { w with snaps := w.snaps.setIfInBounds i t } := by
  unfold prepare
  simp only [yields_bind, yields_snap]
  refine ⟨s, w, ⟨hs, rfl⟩, ?_⟩
  rw [if_neg hpos]
  simp only [yields_bind, yields_lift, yields_setSnap]
  refine ⟨t, w, ⟨ht, rfl⟩, (), _, rfl, ?_⟩
  simp only [hpoint, Bool.false_eq_true, ↓reduceIte, yields_pure, yields_bind, yields_setSnap,
    yields_closestOf]
  exact ⟨t, _, ⟨rfl, rfl⟩, (), _, rfl, d, _, ⟨hd, rfl⟩, rfl, by simp⟩

/-- Two snaps that are prepared alike: they are the same, or they are turned to the same one. -/
def PreparedAlike (g : RoadGraph K) (s s' : Snap K) : Prop :=
  (s.position = .tower ∧ s' = s) ∨ (s.position ≠ .tower ∧ s'.position ≠ .tower ∧
    ∃ t d, s.normalized g = .ok t ∧ s'.normalized g = .ok t ∧ t.point.isNone = false ∧
      t.closest = some d)

/-- **Lists of snaps that are prepared alike** give the same groups and the same prepared snaps. -/
theorem prepareAll_alike (o : Overlay K) (hsize : snaps'.size = snaps.size)
    (halike : ∀ (i : Nat) s s', snaps[i]? = some s → snaps'[i]? = some s' → PreparedAlike g s s')
    {n : Nat} (hn : n ≤ snaps.size) :
    ∃ groups v v', Yields ((List.range n).foldlM (prepare g) []) ⟨o, snaps⟩ groups v ∧
      Yields ((List.range n).foldlM (prepare g) []) ⟨o, snaps'⟩ groups v' ∧
      v.overlay = o ∧ v'.overlay = o ∧ (∀ i < n, v'.snaps[i]? = v.snaps[i]?) ∧
      (∀ i, n ≤ i → v.snaps[i]? = snaps[i]? ∧ v'.snaps[i]? = snaps'[i]?) := by
  induction n with
  | zero =>
    exact ⟨[], ⟨o, snaps⟩, ⟨o, snaps'⟩, yields_pure.2 ⟨rfl, rfl⟩, yields_pure.2 ⟨rfl, rfl⟩, rfl, rfl,
      fun i hi => absurd hi (Nat.not_lt_zero i), fun _ _ => ⟨rfl, rfl⟩⟩
  | succ n ih =>
    obtain ⟨groups, v, v', hv, hv', ho, ho', hdone, hleft⟩ := ih (Nat.le_of_succ_le hn)
    have hs : snaps[n]? = some snaps[n] := Array.getElem?_eq_getElem hn
    have hn' : n < snaps'.size := hsize ▸ hn
    have hs' : snaps'[n]? = some snaps'[n] := Array.getElem?_eq_getElem hn'
    have hread := (hleft n (Nat.le_refl n)).1.trans hs
    have hread' := (hleft n (Nat.le_refl n)).2.trans hs'
    -- One more snap in both lists.
    have hsnoc : ∀ {groups' u u'}, Yields (prepare g groups n) v groups' u →
        Yields (prepare g groups n) v' groups' u' →
          Yields ((List.range (n + 1)).foldlM (prepare g) []) ⟨o, snaps⟩ groups' u ∧
            Yields ((List.range (n + 1)).foldlM (prepare g) []) ⟨o, snaps'⟩ groups' u' := by
      intro groups' u u' hu hu'
      rw [List.range_succ, List.foldlM_append]
      exact ⟨yields_bind.2 ⟨groups, v, hv, yields_bind.2 ⟨_, _, hu, yields_pure.2 ⟨rfl, rfl⟩⟩⟩,
        yields_bind.2 ⟨groups, v', hv', yields_bind.2 ⟨_, _, hu', yields_pure.2 ⟨rfl, rfl⟩⟩⟩⟩
    rcases halike n _ _ hs hs' with ⟨hpos, heq⟩ | ⟨hpos, hpos', t, d, ht, ht', hpoint, hd⟩
    · have hpos' : snaps'[n].position = .tower := heq ▸ hpos
      obtain ⟨hu, hu'⟩ := hsnoc (yields_prepare_tower hread hpos groups)
        (yields_prepare_tower hread' hpos' groups)
      refine ⟨groups, v, v', hu, hu', ho, ho', fun i hi => ?_, fun i hi => hleft i (by omega)⟩
      by_cases hlt : i < n
      · exact hdone i hlt
      · obtain rfl : i = n := by omega
        rw [hread, hread', heq]
    · obtain ⟨hu, hu'⟩ := hsnoc (yields_prepare_turned hread hpos ht hpoint hd groups)
        (yields_prepare_turned hread' hpos' ht' hpoint hd groups)
      refine ⟨_, _, _, hu, hu', ho, ho', fun i hi => ?_, fun i hi => ?_⟩
      · by_cases hlt : i < n
        · rw [Array.getElem?_setIfInBounds_ne (by omega), Array.getElem?_setIfInBounds_ne (by omega)]
          exact hdone i hlt
        · obtain rfl : i = n := by omega
          rw [Array.getElem?_setIfInBounds_self_of_lt (Array.getElem?_eq_some_iff.1 hread).1,
            Array.getElem?_setIfInBounds_self_of_lt (Array.getElem?_eq_some_iff.1 hread').1]
      · rw [Array.getElem?_setIfInBounds_ne (by omega), Array.getElem?_setIfInBounds_ne (by omega)]
        exact hleft i (by omega)

/-- **Snaps that are prepared alike** give the same overlay and become the same snaps. -/
theorem build_alike (hsize : snaps'.size = snaps.size)
    (hclosest : ∀ s ∈ snaps, s.closest.isNone = false)
    (hclosest' : ∀ s ∈ snaps', s.closest.isNone = false)
    (halike : ∀ (i : Nat) s s', snaps[i]? = some s → snaps'[i]? = some s' → PreparedAlike g s s') :
    Overlay.build g snaps' = Overlay.build g snaps := by
  obtain ⟨groups, v, v', hv, hv', ho, ho', hdone, hleft⟩ :=
    prepareAll_alike (uncut g) hsize halike (Nat.le_refl snaps.size)
  -- When all snaps have been prepared, nothing is left of the difference.
  have hsame : v' = v := by
    have hsnaps : v'.snaps = v.snaps := by
      refine Array.ext_getElem? fun i => ?_
      by_cases hlt : i < snaps.size
      · exact hdone i hlt
      · obtain ⟨h, h'⟩ := hleft i (Nat.le_of_not_lt hlt)
        rw [h, h', Array.getElem?_eq_none (Nat.le_of_not_lt hlt),
          Array.getElem?_eq_none (hsize ▸ Nat.le_of_not_lt hlt)]
    obtain ⟨_, _⟩ := v
    obtain ⟨_, _⟩ := v'
    subst ho ho' hsnaps
    rfl
  subst hsame
  have hrun : (build g).run.run ⟨uncut g, snaps'⟩ = (build g).run.run ⟨uncut g, snaps⟩ := by
    have hstart : ∀ xs : Array (Snap K), Yields get ⟨uncut g, xs⟩ ⟨uncut g, xs⟩ ⟨uncut g, xs⟩ :=
      fun xs => yields_get.2 ⟨rfl, rfl⟩
    unfold build
    rw [run_bind_of_yields (hstart snaps), run_bind_of_yields (hstart snaps')]
    rw [← hsize] at hv'
    refine (run_bind_of_yields hv').trans ?_
    show _ = ((List.range snaps.size).foldlM (prepare g) [] >>= _).run.run _
    rw [run_bind_of_yields hv]
  unfold uncut at hrun
  unfold Overlay.build
  rw [Array.findIdx?_eq_none_iff.2 hclosest, Array.findIdx?_eq_none_iff.2 hclosest', hrun]

end Splicing

/-! ## §3. Either side. -/

/-- **The side from which a snap reached its road does not matter** where the road has a direction
of its own: naming the places of some snaps from the other end gives the same overlay and the same
snaps. -/
theorem overlay_same_from_either_side [OrderedScalar K] (g : RoadGraph K) (snaps : Array (Snap K))
    (turned : Nat → Bool) (hsnaps : ∀ s ∈ snaps, s.position ≠ .tower ∧ s.Computed g)
    (hown : ∀ (i : Nat) s, snaps[i]? = some s → turned i = true → ∀ d, s.closest = some d →
      OwnDirection g d) :
    ∃ o final, Overlay.build g snaps = (.ok o, final) ∧
      Overlay.build g (snaps.mapIdx fun i s => if turned i then s.fromOtherSide g else s) =
        (.ok o, final) := by
  obtain ⟨o, final, hbuild⟩ := Splicing.exists_build fun i s hs =>
    (hsnaps s (Array.mem_of_getElem? hs)).2
  have hclosest : ∀ s ∈ snaps, s.closest.isNone = false := by
    intro s hs
    obtain ⟨d, hd, -⟩ := (hsnaps s hs).2.closest
    rw [hd]
    rfl
  refine ⟨o, final, hbuild, (Splicing.build_alike (by simp) hclosest (fun t ht => ?_)
    fun i s s' hs hs' => ?_).trans hbuild⟩
  · obtain ⟨i, hi, rfl⟩ := Array.mem_mapIdx.1 ht
    split
    · rw [Snap.isNone_closest_fromOtherSide]
      exact hclosest _ (Array.getElem_mem hi)
    · exact hclosest _ (Array.getElem_mem hi)
  · rw [Array.getElem?_mapIdx, hs, Option.map_some] at hs'
    obtain rfl := Option.some.inj hs'
    obtain ⟨hpos, hcomputed⟩ := hsnaps s (Array.mem_of_getElem? hs)
    obtain ⟨p, hp⟩ := hcomputed.exists_point
    -- Turning keeps the point, and the road is there.
    have hrest : ∀ t, s.normalized g = .ok t → t.point.isNone = false ∧ ∃ d, t.closest = some d := by
      intro t ht
      obtain ⟨d, hd, -⟩ := hcomputed.closest
      rw [(Snap.point_normalized ht).1, hp]
      rcases Splicing.normalized_cases ht with ⟨rfl, -⟩ | ⟨d', shape, index, -, -, -, -, rfl⟩
      · exact ⟨rfl, d, hd⟩
      · exact ⟨rfl, _, rfl⟩
    refine .inr ⟨hpos, ?_, ?_⟩
    · split
      · rwa [Snap.fromOtherSide_position]
      · exact hpos
    · cases hturned : turned i with
      | false =>
        obtain ⟨t, ht⟩ := hcomputed.exists_normalized hpos
        obtain ⟨hpoint, d, hd⟩ := hrest t ht
        exact ⟨t, d, ht, ht, hpoint, hd⟩
      | true =>
        obtain ⟨d, hd, -⟩ := hcomputed.closest
        obtain ⟨t, ht, ht'⟩ := hcomputed.normalized_fromOtherSide hpos hd (hown i s hs hturned d hd)
        obtain ⟨hpoint, d', hd'⟩ := hrest t ht
        exact ⟨t, d', ht, ht', hpoint, hd'⟩

/-- The fixes on a road that is cut twice have computed points. -/
theorem Splicing.computed_cutSnaps {s : Snap Exact} (hs : s ∈ Splicing.cutSnaps) :
    s.position ≠ .tower ∧ s.Computed (Splicing.cutRoad 0) ∧ s.closest = some RoadGraph.onlyRoad := by
  obtain ⟨i, hi⟩ := Array.mem_iff_getElem?.1 hs
  have hfound : Found (cutRoad 0) cutSnaps := found_levelRoad 0 _ 0 (.inl rfl) (.inr rfl)
  obtain ⟨hcases, hclosest⟩ := closest_levelRoad 0 (.inl rfl) (.inr rfl) hi
  rcases hcases with rfl | rfl
  · exact ⟨by simp [atInner, Snap.onEdge], hfound.computed hi hclosest rfl, hclosest⟩
  · exact ⟨by simp [between, Snap.onEdge], hfound.computed hi hclosest rfl, hclosest⟩

/-- The second fix on a road, named from the other end. -/
theorem overlay_same_from_either_side_cutRoad :
    ∃ o final, Overlay.build (Splicing.cutRoad 0) Splicing.cutSnaps = (.ok o, final) ∧
      Overlay.build (Splicing.cutRoad 0) (Splicing.cutSnaps.mapIdx fun i s =>
        if i == 1 then s.fromOtherSide (Splicing.cutRoad 0) else s) = (.ok o, final) := by
  refine overlay_same_from_either_side (Splicing.cutRoad 0) Splicing.cutSnaps (fun i => i == 1)
    (fun s hs => ⟨(Splicing.computed_cutSnaps hs).1, (Splicing.computed_cutSnaps hs).2.1⟩)
    fun i s hs _ d hd => ?_
  have hclosest := (Splicing.computed_cutSnaps (Array.mem_of_getElem? hs)).2.2
  obtain rfl := Option.some.inj (hclosest.symm.trans hd)
  exact .inl Nat.zero_ne_one

/-! ## §4. A loop without a direction. -/

/-- A node and a loop there. -/
def RoadGraph.oneLoop (p : Point K) (pillars : List (Point K)) (d : K) : RoadGraph K :=
  after (setPillars 0 ⟨pillars, false⟩) (after (addEdge 0 0 d) (after (setNode 0 p) (empty false)))

/-- The loop of such a graph, as it is stored. -/
def RoadGraph.onlyLoop : DirectedEdge := ⟨0, 0, 0, false⟩

namespace RoadGraph

variable (p : Point K) (pillars : List (Point K)) (d : K)

theorem built_oneLoop : (oneLoop p pillars d).Built :=
  .setPillars _ _ (.addEdge _ _ _ (.setNode _ _ (.empty false)))

theorem oneLoop_eq : (oneLoop p pillars d).nodes = #[p] ∧
    (oneLoop p pillars d).roads = #[⟨0, 0, d, ⟨pillars, false⟩, ""⟩] ∧
    (oneLoop p pillars d).is3d = false := by
  have hnodes : ((empty false).placeNode 0 p).nodes = #[p] := by simp [placeNode, grow, empty]
  unfold oneLoop
  rw [show after (setNode 0 p) (empty false) = (empty false).placeNode 0 p from rfl]
  have hroads : ((empty false).placeNode 0 p).roads = #[] := rfl
  have his3d : ((empty false).placeNode 0 p).is3d = false := rfl
  generalize (empty false).placeNode 0 p = g at hnodes hroads his3d
  have hcount : 0 < g.nodeCount := by
    rw [nodeCount, hnodes]
    exact Nat.one_pos
  rw [after_addEdge_of_lt d hcount hcount, after_setPillars_of_lt _ (by simp [edgeCount, joinNodes])]
  simp [joinNodes, hnodes, hroads, his3d]

theorem shape_onlyLoop : onlyLoop.shape (oneLoop p pillars d) =
    .ok ⟨(p :: pillars) ++ [p], false⟩ := by
  obtain ⟨hnodes, hroads, his3d⟩ := oneLoop_eq p pillars d
  unfold DirectedEdge.shape RoadGraph.edgeNodes RoadGraph.fullGeometry
  rw [hnodes, hroads, his3d]
  rfl

theorem hasDirection_onlyLoop : (oneLoop p pillars d).HasDirection onlyLoop := by
  refine ⟨⟨0, 0, d, ⟨pillars, false⟩, ""⟩, ?_, .inl rfl⟩
  rw [(oneLoop_eq p pillars d).2.1]
  rfl

end RoadGraph

/-- A loop with one inner point or none is turned in neither direction. -/
theorem Snap.runsBackwards_of_short {d : DirectedEdge} {shape : Polyline K} (hloop : d.base = d.adj)
    (hshape : d.shape g = .ok shape) (hshort : shape.length ≤ 3) :
    runsBackwards g d = .ok false := by
  unfold runsBackwards
  rw [if_pos hloop, hshape]
  show (if 3 < shape.length then _ else _) = _
  rw [if_neg (Nat.not_lt.2 hshort)]
  rfl

namespace Splicing

variable {snaps final : Array (Snap K)} {o : Overlay K}

/-- A settled snap is still on the road on which it was. -/
theorem closest_of_mem_settledFrom {a : Anchor K} {n : NodeId} {ss : List (Snap K)} {t : Snap K}
    (ht : t ∈ settledFrom a n ss) : ∃ s ∈ ss, t.closest = s.closest := by
  obtain ⟨x, hx, hclosest, -⟩ := exists_end_of_settled ht
  exact ⟨x.1, mem_of_mem_endsFrom hx, hclosest⟩

/-- **The only snap** keeps its direction if that does not run backwards. -/
theorem closest_of_build_single {s t : Snap K} {d : DirectedEdge} (hpos : s.position ≠ .tower)
    (hd : s.closest = some d) (hdir : Snap.runsBackwards g d = .ok false)
    (hbuild : Overlay.build g #[s] = (.ok o, final)) (ht : final[0]? = some t) :
    t.closest = some d := by
  obtain ⟨groups, prepared, spliced, cs, hsteps⟩ := exists_buildSteps hbuild
  obtain ⟨e, is, n, closest, shape, start, last, ss, hmem, -, hr, t', ht', hread⟩ :=
    hsteps.exists_settled (i := 0) rfl hpos
  obtain rfl : t = t' := Option.some.inj (ht.symm.trans hread)
  obtain ⟨s', hs', hclosest⟩ := closest_of_mem_settledFrom ht'
  obtain ⟨i, s₀, -, hs₀, hf⟩ := hsteps.filed_of_resolved hmem hr hs'
  obtain rfl : s₀ = s := by simpa using Array.mem_of_getElem? hs₀
  obtain ⟨turned, hturned, hcases⟩ := hf.prepared
  rw [normalized_self hdir hd] at hturned
  obtain rfl := Except.ok.inj hturned
  rw [hclosest]
  rcases hcases with ⟨-, hloc⟩ | ⟨-, rfl⟩
  · obtain ⟨-, -, -, -, -, -, hkept, -⟩ := located_inv hloc
    exact hkept.trans hd
  · exact hd

end Splicing

/-- **On a loop with one inner point the side does matter**: a snap there keeps the direction in
which it is given. -/
theorem side_matters_on_loop :
    ¬ ∀ (g : RoadGraph Exact) (snaps : Array (Snap Exact)) (turned : Nat → Bool), g.Built →
      (∀ s ∈ snaps, s.position ≠ .tower ∧ s.Computed g) →
        Overlay.build g (snaps.mapIdx fun i s => if turned i then s.fromOtherSide g else s) =
          Overlay.build g snaps := by
  intro hall
  let g := RoadGraph.oneLoop (Exact.onParallel 0 0) [Exact.onParallel 0 1] (0 : Exact)
  let s : Snap Exact := { Snap.onEdge (Exact.onParallel 0 1) RoadGraph.onlyLoop 1 .pillar with
    point := some (Exact.onParallel 0 1) }
  have hshape := RoadGraph.shape_onlyLoop (Exact.onParallel 0 0) [Exact.onParallel 0 1] (0 : Exact)
  have hpos : s.position ≠ .tower := by simp [s, Snap.onEdge]
  have hcomputed : s.Computed g :=
    ⟨⟨_, rfl, RoadGraph.hasDirection_onlyLoop _ _ _⟩, _,
      Splicing.located_pillar rfl hshape rfl rfl, (Splicing.point_measured _).symm⟩
  have hforwards : Snap.runsBackwards g RoadGraph.onlyLoop = .ok false :=
    Snap.runsBackwards_of_short rfl hshape (Nat.le_refl 3)
  have hbackwards : Snap.runsBackwards g RoadGraph.onlyLoop.reversed = .ok false :=
    Snap.runsBackwards_of_short rfl (DirectedEdge.shape_reversed hshape) (Nat.le_refl 3)
  obtain ⟨o, final, hbuild⟩ : ∃ o final, Overlay.build g #[s] = (.ok o, final) :=
    Splicing.exists_build fun i t ht => by
    obtain rfl : t = s := by simpa using Array.mem_of_getElem? ht
    exact hcomputed
  obtain ⟨groups, prepared, spliced, cs, hsteps⟩ := Splicing.exists_buildSteps hbuild
  obtain ⟨t, ht⟩ : ∃ t, final[0]? = some t :=
    ⟨_, Array.getElem?_eq_getElem (by rw [hsteps.size_eq]; exact Nat.one_pos)⟩
  have hturned : Overlay.build g #[s.fromOtherSide g] = (.ok o, final) :=
    (hall g #[s] (fun _ => true) (RoadGraph.built_oneLoop _ _ _) fun u hu => by
      obtain rfl : u = s := by simpa using hu
      exact ⟨hpos, hcomputed⟩).trans hbuild
  -- In one overlay the snap lies on the loop as stored, in the other one on its reverse.
  have hclosest := Splicing.closest_of_build_single hpos rfl hforwards hbuild ht
  have hclosest' := Splicing.closest_of_build_single (s := s.fromOtherSide g) hpos rfl hbackwards
    hturned ht
  have hreverse := Option.some.inj (hclosest.symm.trans hclosest')
  simp [RoadGraph.onlyLoop, DirectedEdge.reversed] at hreverse

end RoadSplice

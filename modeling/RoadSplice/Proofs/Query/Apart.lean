/-
  RoadSplice.Proofs.Query.Apart — neighbours along a chain are not at one spot.

  A snap at the spot of the anchor before it ends there and adds no node.  So along a chain, from the
  node with the smaller number on, no virtual node is at the spot of the node before it, be that the
  base node or another virtual one.  The last virtual node and the node at the other end are not
  compared: a fix at that end becomes a virtual node there.
-/
import RoadSplice.Proofs.Query.Shapes

namespace RoadSplice

open Overlay Splicing

variable {K : Type} [Scalar K] {g : RoadGraph K} {o : Overlay K} {snaps final : Array (Snap K)}

/-! ## §1. Stops. -/

/-- **A stop is not at the spot of the one before it**, nor the first one at that of the anchor. -/
theorem Splicing.stops_apart (shape : Polyline K) (a : Anchor K) (n : NodeId) (ss : List (Snap K)) :
    (a.point :: (stopsFrom shape a n ss).map (·.point)).IsChain
      fun p q => p.coincides q = false := by
  induction ss generalizing a n with
  | nil => exact .singleton _
  | cons s ss ih =>
    unfold stopsFrom
    by_cases hco : a.point.coincides (s.point.getD a.point) = true
    · -- The snap ends at the anchor and adds no stop.
      rw [if_pos hco]
      exact ih a n
    · -- The stop of the snap is the anchor of the snaps behind it.
      rw [if_neg hco, List.map_cons, List.isChain_cons_cons]
      exact ⟨by simpa using hco, ih (anchorAt a s n) (n + 1)⟩

/-! ## §2. The direction of a chain. -/

/-- A road in its own direction leads to the node with the greater number. -/
theorem Snap.base_le_of_runsBackwards {d : DirectedEdge} {back : Bool}
    (h : Snap.runsBackwards g d = .ok back) :
    if back then d.adj ≤ d.base else d.base ≤ d.adj := by
  by_cases hloop : d.base = d.adj
  · cases back <;> simp [hloop]
  · unfold runsBackwards at h
    rw [if_neg hloop] at h
    obtain rfl : decide (d.adj < d.base) = back := by simpa using h
    by_cases hlt : d.adj < d.base
    · simp [hlt, Nat.le_of_lt hlt]
    · simp [hlt, Nat.le_of_not_lt hlt]

/-- **A chain begins at the end of its road with the smaller number.** -/
theorem Splicing.Threads.base_le {n : NodeId} {c : Chain K} {shape : Polyline K}
    {start last : Point K} {ss : List (Snap K)}
    (h : Threads g snaps final n c shape start last ss) : c.road.base ≤ c.road.adj := by
  obtain ⟨s, hs, hroad⟩ := h.exists_first
  obtain ⟨i, s₀, -, hfiled⟩ := h.filed s hs
  obtain ⟨turned, hturned, hcases⟩ := hfiled.prepared
  obtain ⟨hclosest, -⟩ := Prepared.exists_closest hturned hcases hroad
  -- The snap was given in this direction, or it has been turned round.
  rcases normalized_cases hturned with ⟨rfl, hdir⟩ | ⟨d, shape', index, -, hback, -, -, rfl⟩
  · exact Snap.base_le_of_runsBackwards (hdir _ hclosest)
  · have hturned : d.reversed = c.road := Option.some.inj hclosest
    rw [← hturned]
    exact Snap.base_le_of_runsBackwards hback

/-! ## §3. Nodes along a chain. -/

/-- Two nodes of a query graph that are not at one spot. -/
def QueryGraph.Apart (q : QueryGraph K) (m n : NodeId) : Prop :=
  ∃ p r, q.coordinate? m = some p ∧ q.coordinate? n = some r ∧ p.coincides r = false

/-- **No virtual node is at the spot of the node before it**, from the end of the road with the
smaller number on. -/
theorem neighbours_apart (hg : g.Built) (hsnaps : OnRoads g snaps)
    (h : Overlay.build g snaps = (.ok o, final)) :
    ∃ cs, Overlay.Spliced g o cs ∧ ∀ c ∈ cs, c.road.base ≤ c.road.adj ∧
      ∀ j < c.points.length, (QueryGraph.ofOverlay g o).Apart (c.along g j) (c.along g (j + 1)) := by
  obtain ⟨cs, hspliced, hthreads⟩ := Overlay.spliced_of_build hg.wellFormed hsnaps h
  refine ⟨cs, hspliced, ?_⟩
  intro c hc
  obtain ⟨shape, start, last, ss, ht⟩ := hthreads c hc
  refine ⟨ht.base_le, ?_⟩
  intro j hj
  have hchain : (start :: c.points).IsChain fun p q => p.coincides q = false := by
    rw [ht.points_eq]
    exact stops_apart shape (baseAnchor c.road start) (g.nodeCount + c.start) ss
  -- The nodes of the chain lie at its points, the base node at the first point of the shape.
  have hlt : j + 1 < (start :: c.points).length := Nat.succ_lt_succ hj
  have hat : ∀ i (hi : i < (start :: c.points).length),
      (QueryGraph.ofOverlay g o).coordinate? (c.along g i) = some (start :: c.points)[i] := by
    intro i hi
    rw [hspliced.coordinate?_along hg.wellFormed hc ht (Nat.le_of_lt hi), ← List.cons_append,
      List.getElem?_append_left hi, List.getElem?_eq_getElem hi]
  exact ⟨_, _, hat j (Nat.lt_of_succ_lt hlt), hat (j + 1) hlt,
    List.isChain_iff_getElem.1 hchain j hlt⟩

namespace Splicing

open Exact (onParallel)
open RoadGraph (onlyRoad)

/-- Such a fix cuts the road, in one place. -/
theorem build_atFarEnd : ∃ o final c, Overlay.build (cutRoad 0) #[atFarEnd] = (.ok o, final) ∧
    Overlay.Spliced (cutRoad 0) o [c] ∧ c.start = 0 ∧ c.points = [onParallel 0 3] := by
  have hplace : ∀ t ∈ [atFarEnd], InPlace onlyRoad (levelShape 0) t := by
    intro t ht
    obtain rfl := List.mem_singleton.1 ht
    exact ⟨⟨_, rfl, .inl rfl⟩, by simp [atFarEnd, Snap.onEdge], ⟨_, rfl⟩, ⟨_, rfl⟩⟩
  have hapart : (onParallel 0 0).coincides (onParallel 0 3) = false :=
    Exact.coincides_onParallel 0 (by norm_num)
  obtain ⟨o, final, hbuild, hspliced, -⟩ := build_onlyRoad (onParallel 0 0) (onParallel 0 3)
    [onParallel 0 1, onParallel 0 2] (levelLength 0 (atInner 0) (between 0)) 0 [] hplace
    (List.pairwise_singleton _ _) hapart
  have hsnaps : ApartFrom (onParallel 0 0) [atFarEnd] := ⟨_, rfl, hapart, trivial⟩
  exact ⟨o, final, _, hbuild, hspliced, rfl, hsnaps.chain_points _ _ _ _⟩

/-- **The virtual node of such a fix** is where the node at that end is. -/
theorem not_apart_atFarEnd {o : Overlay Exact} {c : Chain Exact}
    (h : Overlay.Spliced (cutRoad 0) o [c]) (hstart : c.start = 0)
    (hpoints : c.points = [onParallel 0 3]) :
    o.isVirtualNode 2 = true ∧ ¬ (QueryGraph.ofOverlay (cutRoad 0) o).Apart 2 1 := by
  obtain ⟨hnodes, -⟩ := RoadGraph.oneRoad_eq (onParallel 0 0) (onParallel 0 3)
    [onParallel 0 1, onParallel 0 2] (levelLength 0 (atInner 0) (between 0)) 0
  have hcount : (cutRoad 0).nodeCount = 2 := RoadGraph.nodeCount_oneRoad _ _ _ _ _
  have hc : c ∈ [c] := List.mem_singleton_self c
  have hpos : 0 < c.points.length := by simp [hpoints]
  have hnode : c.along (cutRoad 0) (0 + 1) = 2 := by
    show c.node (cutRoad 0).nodeCount (0 + 1) = 2
    rw [c.node_virtual _ hpos, hstart, hcount]
  have hvirtual := h.isVirtualNode_along hc hpos
  have hthere := h.coordinate?_virtual hc hpos
  have hend : (QueryGraph.ofOverlay (cutRoad 0) o).coordinate? 1 = some (onParallel 0 3) := by
    have hlt : 1 < o.firstNode := by
      rw [h.firstNode_eq, hcount]
      exact Nat.one_lt_two
    rw [QueryGraph.coordinate?_of_lt hlt]
    show (cutRoad 0).nodes[1]? = some (onParallel 0 3)
    rw [show (cutRoad 0).nodes = _ from hnodes]
    rfl
  rw [hnode] at hvirtual hthere
  refine ⟨hvirtual, ?_⟩
  rintro ⟨p, r, hp, hr, hfar⟩
  obtain rfl : c.points[0] = p := Option.some.inj (hthere.symm.trans hp)
  obtain rfl : onParallel 0 3 = r := Option.some.inj (hend.symm.trans hr)
  have hsame : c.points[0] = onParallel 0 3 := by simp [hpoints]
  -- Both nodes are at one finite position, which coincides with itself.
  rw [hsame, Exact.coincides_of_finite ⟨_, rfl⟩ ⟨_, rfl⟩ rfl rfl] at hfar
  cases hfar

end Splicing

/-- **The other end is not compared**: a fix there becomes a virtual node at the spot of that end. -/
theorem neighbours_apart_farEnd :
    (cutRoad 0).Built ∧ OnRoads (cutRoad 0) #[atFarEnd] ∧ ∃ o final,
      Overlay.build (cutRoad 0) #[atFarEnd] = (.ok o, final) ∧
        (∃ cs, Overlay.Spliced (cutRoad 0) o cs ∧ ∀ c ∈ cs, c.road.base ≤ c.road.adj ∧
          ∀ j < c.points.length, (QueryGraph.ofOverlay (cutRoad 0) o).Apart
            (c.along (cutRoad 0) j) (c.along (cutRoad 0) (j + 1))) ∧
        o.isVirtualNode 2 = true ∧ ¬ (QueryGraph.ofOverlay (cutRoad 0) o).Apart 2 1 := by
  have hbuilt := built_cutRoad 0
  have honroads : OnRoads (cutRoad 0) #[atFarEnd] := by
    intro i s hs d hd
    obtain rfl : s = atFarEnd := by simpa using Array.mem_of_getElem? hs
    obtain rfl : RoadGraph.onlyRoad = d := Option.some.inj hd
    exact RoadGraph.hasDirection_onlyRoad _ _ _ _ _
  obtain ⟨o, final, c, hbuild, hspliced, hstart, hpoints⟩ := build_atFarEnd
  exact ⟨hbuilt, honroads, o, final, hbuild, neighbours_apart hbuilt honroads hbuild,
    not_apart_atFarEnd hspliced hstart hpoints⟩

end RoadSplice

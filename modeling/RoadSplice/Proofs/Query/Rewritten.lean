/-
  RoadSplice.Proofs.Query.Rewritten — what building an overlay writes into the snaps.

  A snap at a tower is handed back as it came.  Any other ends at an anchor of its road: at the base
  node, where it becomes a snap at a tower, or at a virtual node of the chain of the road.  What it
  says then is what the anchor says, so all the snaps at one anchor say the same, and the point that
  it names is where the query graph has the node.  The anchor is at its spot: it has not moved, or
  not by more than the tolerance, however many snaps have ended there before it.
-/
import RoadSplice.Proofs.Overlay.Again
import RoadSplice.Proofs.Query.Shapes

namespace RoadSplice

open Overlay Splicing

variable {K : Type} [Scalar K] {g : RoadGraph K} {o : Overlay K} {snaps final : Array (Snap K)}
  {groups : Groups} {prepared spliced : Splicing K} {cs : List (Chain K)} {e : EdgeId}
  {is : List Nat} {n : NodeId} {closest : DirectedEdge} {shape : Polyline K} {start last : Point K}
  {ss : List (Snap K)}

/-! ## §1. Prepared snaps. -/

/-- Preparing a snap keeps the point that it has. -/
theorem Splicing.Prepared.point_eq {s s' : Snap K} (h : Prepared g s s') {p : Point K}
    (hp : s.point = some p) : s'.point = some p := by
  obtain ⟨turned, hturned, hcases⟩ := h
  have hturn : turned.point = some p := (Snap.point_normalized hturned).1.trans hp
  rcases hcases with ⟨hnone, -⟩ | ⟨-, rfl⟩
  · rw [hturn] at hnone
    cases hnone
  · exact hturn

/-- A prepared snap lies on its road in the direction to which it has been turned. -/
theorem Splicing.Prepared.exists_turned {s s' : Snap K} (h : Prepared g s s') {d : DirectedEdge}
    (hd : s'.closest = some d) :
    ∃ turned d₀, s.normalized g = .ok turned ∧ turned.closest = some d ∧ s.closest = some d₀ ∧
      d.edge = d₀.edge := by
  obtain ⟨turned, hturned, hcases⟩ := h
  obtain ⟨hclosest, d₀, hd₀, hsame⟩ := Prepared.exists_closest hturned hcases hd
  refine ⟨turned, d₀, hturned, hclosest, hd₀, ?_⟩
  rcases hsame with rfl | rfl <;> rfl

/-! ## §2. Ends in the query graph. -/

/-- **An anchor at a stop** that is a virtual node of the chain of the road. -/
def Splicing.AtStop (g : RoadGraph K) (cs : List (Chain K)) (closest : DirectedEdge)
    (stops : List (Stop K)) (a : Anchor K) : Prop :=
  ∃ c ∈ cs, c.road = closest ∧ ∃ (j : Nat) (hj : j < c.points.length) (st : Stop K),
    stops[j]? = some st ∧ c.points[j] = st.point ∧ a = st.anchor (c.along g (j + 1))

section

variable (h : BuildSteps g snaps final o groups prepared spliced cs) (hmem : (e, is) ∈ groups)
  (hr : Resolved g prepared.snaps final is g.nodeCount cs n closest shape start last ss)
  {x : Snap K × Anchor K} (hx : x ∈ endsFrom (baseAnchor closest start) n ss)

include hr hx

/-- **Where a snap of a road ends**: at the base node, or at a stop. -/
theorem Splicing.Resolved.end_node : x.2 = baseAnchor closest start ∨
    AtStop g cs closest (stopsFrom shape (baseAnchor closest start) n ss) x.2 := by
  rcases end_eq shape hx with hbase | ⟨j, st, hst, hanchor⟩
  · exact .inl hbase
  · have hlt := (List.getElem?_eq_some_iff.1 hst).1
    obtain ⟨c, hc, hroad, hn, hpoints, -⟩ :=
      hr.chain (List.ne_nil_of_length_pos (Nat.zero_lt_of_lt hlt))
    have hj : j < c.points.length := by
      rw [hpoints, List.length_map]
      exact hlt
    -- The nodes of the chain are its stops, in their order.
    have hpoint : c.points[j] = st.point := by
      apply Option.some.inj
      rw [← List.getElem?_eq_getElem hj, hpoints, List.getElem?_map, hst]
      rfl
    refine .inr ⟨c, hc, hroad, j, hj, st, hst, hpoint, ?_⟩
    rw [hanchor]
    congr 1
    show n + j = c.node g.nodeCount (j + 1)
    rw [c.node_virtual _ hj, hn, Nat.add_assoc]

include h hmem

variable (hg : g.WellFormed) (hsnaps : OnRoads g snaps)

include hg hsnaps

/-- **An end that is a virtual node** is at a stop of the road. -/
theorem Splicing.BuildSteps.end_virtual (hvirtual : o.isVirtualNode x.2.node = true) :
    AtStop g cs closest (stopsFrom shape (baseAnchor closest start) n ss) x.2 := by
  refine (hr.end_node hx).resolve_left ?_
  intro hbase
  obtain ⟨hspliced, -⟩ := Overlay.spliced_of_steps hg hsnaps h
  have hroad := (h.direction_of_resolved hmem hr hsnaps).1
  have hreal : o.isVirtualNode closest.base = false :=
    hspliced.isVirtualNode_of_lt (hg.touches_lt hroad.touches.1)
  rw [hbase] at hvirtual
  exact absurd (hvirtual.symm.trans hreal) (by simp)

omit hmem in
/-- **An end that is a real node** is the base node of the road. -/
theorem Splicing.BuildSteps.end_real (hreal : o.isVirtualNode x.2.node = false) :
    x.2 = baseAnchor closest start := by
  refine (hr.end_node hx).resolve_right ?_
  rintro ⟨c, hc, -, j, hj, st, -, -, hanchor⟩
  obtain ⟨hspliced, -⟩ := Overlay.spliced_of_steps hg hsnaps h
  have hvirtual : o.isVirtualNode (c.along g (j + 1)) = true := hspliced.isVirtualNode_along hc hj
  rw [hanchor] at hreal
  exact absurd (hvirtual.symm.trans hreal) (by simp)

/-- **The point of an end** is where the query graph has its node. -/
theorem Splicing.BuildSteps.coordinate?_end :
    (QueryGraph.ofOverlay g o).coordinate? x.2.node = some x.2.point := by
  obtain ⟨hspliced, -⟩ := Overlay.spliced_of_steps hg hsnaps h
  rcases hr.end_node hx with hbase | ⟨c, hc, -, j, hj, st, -, hpoint, hanchor⟩
  · have hroad := (h.direction_of_resolved hmem hr hsnaps).1
    have hlt := hg.touches_lt hroad.touches.1
    rw [hbase]
    show (QueryGraph.ofOverlay g o).coordinate? closest.base = some start
    rw [QueryGraph.coordinate?_of_lt (hspliced.firstNode_eq.symm ▸ hlt)]
    show g.nodes[closest.base]? = some start
    rw [(hg.towers hroad hr.shape_eq).1, hr.start_eq]
  · rw [hanchor]
    show (QueryGraph.ofOverlay g o).coordinate? (c.along g (j + 1)) = some st.point
    rw [hspliced.coordinate?_virtual hc hj, hpoint]

end

/-! ## §3. What a snap says afterwards. -/

/-- **What building writes into a snap** that was at no tower: a node of the query graph and the point
where that lies.  A virtual node is one of the road of the snap; at a real one, the base node of its
road, the snap is at a tower now.  A point that was there before has not moved, or hardly. -/
structure Snap.RewrittenTo (g : RoadGraph K) (o : Overlay K) (s t : Snap K) (m : NodeId)
    (p : Point K) : Prop where
  node : t.node = some m
  point : t.point = some p
  coordinate : (QueryGraph.ofOverlay g o).coordinate? m = some p
  virtual : o.isVirtualNode m = true →
    ∃ v d, o.node? m = some v ∧ s.closest = some d ∧ v.road = d.edge
  real : o.isVirtualNode m = false → ∃ turned d, s.normalized g = .ok turned ∧
    turned.closest = some d ∧ t.closest = some d ∧ m = d.base ∧ t.position = .tower ∧ t.wayIndex = 0
  moved : ∀ p₀, s.point = some p₀ → p = p₀ ∨ p.coincides p₀ = true

/-- A snap that has ended at an anchor of its road says what the anchor says. -/
theorem Splicing.BuildSteps.rewritten (h : BuildSteps g snaps final o groups prepared spliced cs)
    (hmem : (e, is) ∈ groups)
    (hr : Resolved g prepared.snaps final is g.nodeCount cs n closest shape start last ss)
    (hg : g.WellFormed) (hsnaps : OnRoads g snaps) {s t : Snap K} {x : Snap K × Anchor K}
    (hx : x ∈ endsFrom (baseAnchor closest start) n ss) (hfiled : Filed g e s x.1)
    (hended : EndedAt t x) : s.RewrittenTo g o t x.2.node x.2.point := by
  obtain ⟨hspliced, -⟩ := Overlay.spliced_of_steps hg hsnaps h
  obtain ⟨-, hedge⟩ := h.direction_of_resolved hmem hr hsnaps
  obtain ⟨d, hd, hbase⟩ := hr.same_base x.1 (mem_of_mem_endsFrom hx)
  obtain ⟨turned, d₀, hturned, hclosest, hd₀, hsame⟩ := hfiled.prepared.exists_turned hd
  -- The snap has been filed under its own road, however it was turned.
  have hon : d₀.edge = e := by
    obtain ⟨d', hd', hedge'⟩ := hfiled.exists_closest
    obtain rfl : d = d' := Option.some.inj (hd.symm.trans hd')
    exact hsame.symm.trans hedge'
  refine ⟨hended.node, hended.point, h.coordinate?_end hmem hr hx hg hsnaps, ?_, ?_, ?_⟩
  · intro hvirtual
    obtain ⟨c, hc, hroad, j, hj, st, -, -, hanchor⟩ := h.end_virtual hmem hr hx hg hsnaps hvirtual
    refine ⟨⟨c.points[j], c.road.edge⟩, d₀, ?_, hd₀, ?_⟩
    · rw [hanchor]
      show o.node? (c.node g.nodeCount (j + 1)) = _
      rw [← hspliced.firstNode_eq]
      exact hspliced.laid.node?_virtual hc hj
    · rw [hroad, hedge, hon]
  · intro hreal
    have hend := h.end_real hr hx hg hsnaps hreal
    -- The snap takes over the place of the anchor, and that is the tower.
    have hplace : x.2.place = (0, .tower) := congrArg Anchor.place hend
    refine ⟨turned, d, hturned, hclosest, hended.closest.trans hd, ?_, ?_, ?_⟩
    · rw [hend]
      exact hbase.symm
    · show t.bare.position = .tower
      rw [hended.bare]
      exact congrArg Prod.snd hplace
    · show t.bare.wayIndex = 0
      rw [hended.bare]
      exact congrArg Prod.fst hplace
  · intro p₀ hp₀
    exact end_spot hx (hfiled.prepared.point_eq hp₀)

/-- A snap at a virtual node has ended at a stop of its road, and the node is numbered by it. -/
theorem Splicing.BuildSteps.exists_stop_of_virtual
    (h : BuildSteps g snaps final o groups prepared spliced cs) (hmem : (e, is) ∈ groups)
    (hr : Resolved g prepared.snaps final is g.nodeCount cs n closest shape start last ss)
    (hg : g.WellFormed) (hsnaps : OnRoads g snaps) {i : Nat} (hi : i ∈ is) {t : Snap K}
    (ht : final[i]? = some t) {m : NodeId} (hm : t.node = some m)
    (hvirtual : o.isVirtualNode m = true) :
    ∃ c ∈ cs, c.road.edge = e ∧ ∃ k < c.points.length, m = c.along g (k + 1) ∧ ∃ st : Stop K,
      (stopsFrom shape (baseAnchor closest start) n ss)[k]? = some st ∧
        t.bare = (st.anchor m).bare := by
  obtain ⟨-, hedge⟩ := h.direction_of_resolved hmem hr hsnaps
  obtain ⟨x, hx, t', -, -, ht', hended⟩ := h.exists_ended hmem hr hi
  obtain rfl : t = t' := Option.some.inj (ht.symm.trans ht')
  obtain rfl : m = x.2.node := Option.some.inj (hm.symm.trans hended.node)
  obtain ⟨c, hc, hroad, k, hk, st, hst, -, hanchor⟩ := h.end_virtual hmem hr hx hg hsnaps hvirtual
  refine ⟨c, hc, hroad ▸ hedge, k, hk, congrArg Anchor.node hanchor, st, hst, ?_⟩
  rw [hended.bare, hanchor]
  rfl

/-- **Snaps at one virtual node say the same.** -/
theorem Splicing.BuildSteps.bare_eq (h : BuildSteps g snaps final o groups prepared spliced cs)
    (hg : g.WellFormed) (hsnaps : OnRoads g snaps) {i j : Nat} {s s' t t' : Snap K} {m : NodeId}
    (hs : snaps[i]? = some s) (hs' : snaps[j]? = some s') (hpos : s.position ≠ .tower)
    (hpos' : s'.position ≠ .tower) (ht : final[i]? = some t) (ht' : final[j]? = some t')
    (hm : t.node = some m) (hm' : t'.node = some m) (hvirtual : o.isVirtualNode m = true) :
    t.bare = t'.bare := by
  obtain ⟨hspliced, -⟩ := Overlay.spliced_of_steps hg hsnaps h
  obtain ⟨e, is, n, closest, shape, start, last, ss, hmem, hi, hr, -⟩ := h.exists_settled hs hpos
  obtain ⟨e', is', _, _, _, _, _, _, hmem', hj, hr', -⟩ := h.exists_settled hs' hpos'
  obtain ⟨c, hc, hedge, k, hk, hnode, st, hst, hbare⟩ :=
    h.exists_stop_of_virtual hmem hr hg hsnaps hi ht hm hvirtual
  -- Both nodes are of one chain, so both snaps are of one group.
  obtain rfl : e = e' := by
    obtain ⟨c', hc', hedge', k', hk', hnode', -⟩ :=
      h.exists_stop_of_virtual hmem' hr' hg hsnaps hj ht' hm' hvirtual
    obtain ⟨rfl, -⟩ := hspliced.along_inj hc hc' hk hk' (hnode.symm.trans hnode')
    exact hedge.symm.trans hedge'
  have hj : j ∈ is := by
    have heq := List.inj_on_of_nodup_map h.grouped.keys hmem hmem' rfl
    rw [(Prod.mk.inj heq).2]
    exact hj
  obtain ⟨c', hc', -, k', hk', hnode', st', hst', hbare'⟩ :=
    h.exists_stop_of_virtual hmem hr hg hsnaps hj ht' hm' hvirtual
  obtain ⟨-, rfl⟩ := hspliced.along_inj hc hc' hk hk' (hnode.symm.trans hnode')
  obtain rfl : st = st' := Option.some.inj (hst.symm.trans hst')
  rw [hbare, hbare']

/-- **The snaps fit the overlay.**  Building keeps snaps at towers as they are, and gives every other
snap a node of the query graph at its point, on its own road; snaps at one virtual node have one way
index, position and point. -/
theorem snaps_fit_overlay (hg : g.Built) (hsnaps : OnRoads g snaps)
    (h : Overlay.build g snaps = (.ok o, final)) :
    final.size = snaps.size ∧
      (∀ (i : Nat) s, snaps[i]? = some s → s.position = .tower → final[i]? = some s) ∧
      (∀ (i : Nat) s, snaps[i]? = some s → s.position ≠ .tower →
        ∃ t m p, final[i]? = some t ∧ s.RewrittenTo g o t m p) ∧
      ∀ (i j : Nat) s s' t t' m, snaps[i]? = some s → snaps[j]? = some s' →
        s.position ≠ .tower → s'.position ≠ .tower → final[i]? = some t → final[j]? = some t' →
          t.node = some m → t'.node = some m → o.isVirtualNode m = true →
            t.wayIndex = t'.wayIndex ∧ t.position = t'.position ∧ t.point = t'.point := by
  have hg := hg.wellFormed
  obtain ⟨groups, prepared, spliced, cs, hsteps⟩ := exists_buildSteps h
  refine ⟨hsteps.size_eq, ?_, ?_, ?_⟩
  · intro i s hs hpos
    exact hsteps.tower hs hpos
  · intro i s hs hpos
    obtain ⟨e, is, n, closest, shape, start, last, ss, hmem, hi, hr, -⟩ := hsteps.exists_settled hs hpos
    obtain ⟨x, hx, t, -, hread, ht, hended⟩ := hsteps.exists_ended hmem hr hi
    -- What was filed under this number is the snap.
    obtain ⟨-, s', t', hs', hread', hfiled⟩ := hsteps.grouped.filed e is hmem i hi
    obtain rfl : s = s' := Option.some.inj (hs.symm.trans hs')
    obtain rfl : x.1 = t' := Option.some.inj (hread.symm.trans hread')
    exact ⟨t, _, _, ht, hsteps.rewritten hmem hr hg hsnaps hx hfiled hended⟩
  · intro i j s s' t t' m hs hs' hpos hpos' ht ht' hm hm' hvirtual
    exact Snap.bare_eq_iff.1 (hsteps.bare_eq hg hsnaps hs hs' hpos hpos' ht ht' hm hm' hvirtual)

/-- Two fixes on a road along a parallel, and what is written into the second one. -/
theorem snaps_fit_overlay_cutRoad :
    (cutRoad 0).Built ∧ OnRoads (cutRoad 0) cutSnaps ∧ ∃ o final,
      Overlay.build (cutRoad 0) cutSnaps = (.ok o, final) ∧ final.size = 2 ∧
        ∃ t m p, final[1]? = some t ∧ (between 0).RewrittenTo (cutRoad 0) o t m p := by
  obtain ⟨o, final, hbuild, -⟩ := build_cutRoad 0
  obtain ⟨hsize, -, hothers, -⟩ := snaps_fit_overlay (built_cutRoad 0) (onRoads_cutRoad 0) hbuild
  exact ⟨built_cutRoad 0, onRoads_cutRoad 0, o, final, hbuild, hsize,
    hothers 1 (between 0) rfl (by simp [between, Snap.onEdge])⟩

end RoadSplice

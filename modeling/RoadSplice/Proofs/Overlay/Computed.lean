/-
  RoadSplice.Proofs.Overlay.Computed — overlays are built for all snaps whose points were computed.

  A snap whose point was found from its place on a road of the graph has that place within the
  road's shape.  Turned round, it still has; and all snaps of one road are turned so that they begin
  at the same node.  So nothing refuses them, and each of them ends at a node.
-/
import RoadSplice.Proofs.Overlay.Checked
import RoadSplice.Proofs.Overlay.Ends
import RoadSplice.Proofs.Snap.Closest
import RoadSplice.Query.Basic

namespace RoadSplice

variable {K : Type} [Scalar K] {g : RoadGraph K}

/-! ## §1. Turning. -/

namespace Snap

/-- Whether a road has to be turned round can be told. -/
theorem exists_runsBackwards {d : DirectedEdge} {shape : Polyline K}
    (hshape : d.shape g = .ok shape) : ∃ b, runsBackwards g d = .ok b := by
  unfold runsBackwards
  split
  · rw [hshape]
    show ∃ b, (if 3 < shape.length then _ else _) = _
    split
    · rename_i hlong
      have hlong : 3 < shape.points.length := hlong
      -- With more than three points both inner neighbours of the ends are there.
      obtain ⟨first, hfirst⟩ : ∃ p, shape.get? 1 = some p :=
        ⟨_, List.getElem?_eq_getElem (show 1 < shape.points.length by omega)⟩
      obtain ⟨last, hlast⟩ : ∃ p, shape.get? (shape.points.length - 2) = some p :=
        ⟨_, List.getElem?_eq_getElem (show shape.points.length - 2 < shape.points.length by omega)⟩
      have hlast : shape.get? (shape.length - 2) = some last := hlast
      rw [hfirst, hlast]
      exact ⟨_, rfl⟩
    · exact ⟨false, rfl⟩
  · exact ⟨_, rfl⟩

/-- A snap on a road that has to be turned round, turned. -/
theorem normalized_of_backwards {s : Snap K} {d : DirectedEdge} {shape : Polyline K} {index : Nat}
    (hd : s.closest = some d) (hback : runsBackwards g d = .ok true)
    (hshape : d.reversed.shape g = .ok shape) (hindex : s.indexFromEnd shape.length = some index) :
    s.normalized g = .ok { s with closest := some d.reversed, wayIndex := index } := by
  unfold normalized
  simp [hd, hback, hshape, hindex, bind, Except.bind, pure, Except.pure]

/-- Turning a snap leaves its point and its position as they are. -/
theorem point_normalized {s t : Snap K} (h : s.normalized g = .ok t) :
    t.point = s.point ∧ t.position = s.position := by
  rcases Splicing.normalized_cases h with ⟨rfl, -⟩ | ⟨d, shape, index, -, -, -, -, rfl⟩
  · exact ⟨rfl, rfl⟩
  · exact ⟨rfl, rfl⟩

/-- **Turned snaps** begin at the smaller node of their road. -/
theorem base_le_adj_of_normalized {s t : Snap K} {d : DirectedEdge}
    (h : s.normalized g = .ok t) (hd : t.closest = some d) : d.base ≤ d.adj := by
  rcases Splicing.normalized_cases h with ⟨rfl, hdir⟩ | ⟨d', shape, index, hd', hback, -, -, rfl⟩
  · have hback := hdir d hd
    unfold runsBackwards at hback
    by_cases hloop : d.base = d.adj
    · exact Nat.le_of_eq hloop
    · rw [if_neg hloop] at hback
      simpa using hback
  · obtain rfl : d'.reversed = d := Option.some.inj hd
    unfold runsBackwards at hback
    by_cases hloop : d'.base = d'.adj
    · exact Nat.le_of_eq hloop.symm
    · rw [if_neg hloop] at hback
      have hlt : d'.adj < d'.base := by simpa using hback
      exact Nat.le_of_lt hlt

end Snap

/-! ## §2. Computed points. -/

/-- **A snap with a computed point**: it lies on a road of the graph, and its point is the one that
is found from its place there. -/
structure Snap.Computed (g : RoadGraph K) (s : Snap K) : Prop where
  closest : ∃ d, s.closest = some d ∧ g.HasDirection d
  located : ∃ t, s.located g = .ok t ∧ s.point = t.point

/-- A snap that has been located on a road. -/
theorem Snap.computed_of_located {s : Snap K} {d : DirectedEdge} (hd : s.closest = some d)
    (hroad : g.HasDirection d) (h : s.located g = .ok s) : s.Computed g :=
  ⟨⟨d, hd, hroad⟩, s, h, rfl⟩

/-- What is found, whichever segments are looked at, has a computed point. -/
theorem LocationIndex.computed_of_findAmong {lat lon : K} {accepts : EdgeView K → Bool}
    {looked : List (Segment K)} {s : Snap K} (h : findAmong g lat lon accepts looked = .ok s)
    (hsome : s.closest.isSome = true) : s.Computed g ∧ s.located g = .ok s := by
  rcases findAmong_inv h with hnone | ⟨edge, r, hr, hclosest, hloc⟩
  · rw [hnone] at hsome
    cases hsome
  · exact ⟨Snap.computed_of_located hclosest (RoadGraph.hasDirection_stored hr) hloc, hloc⟩

/-- Snaps found on roads have computed points where they have any. -/
theorem Splicing.Found.computed {snaps : Array (Snap K)} (h : Splicing.Found g snaps) {i : Nat}
    {s : Snap K} (hs : snaps[i]? = some s) {d : DirectedEdge} (hd : s.closest = some d)
    {p : Point K} (hp : s.point = some p) : s.Computed g := by
  obtain ⟨t, hloc, ht⟩ := h.located i s hs p hp
  exact ⟨⟨d, hd, h.onRoads i s hs d hd⟩, t, hloc, hp.trans ht.symm⟩

namespace Snap.Computed

variable {s t : Snap K} {d : DirectedEdge} {shape : Polyline K}

/-- **The place of the snap** is within the shape of its road. -/
theorem place_lt (h : s.Computed g) (hd : s.closest = some d) (hshape : d.shape g = .ok shape) :
    s.wayIndex < shape.length ∧ (s.position = .edge → s.wayIndex + 1 < shape.length) := by
  obtain ⟨t, hloc, -⟩ := h.located
  obtain ⟨d', shape', here, hd', hshape', hhere, hcases⟩ := located_cases hloc
  obtain rfl : d = d' := Option.some.inj (hd.symm.trans hd')
  obtain rfl : shape = shape' := Except.ok.inj (hshape.symm.trans hshape')
  refine ⟨(List.getElem?_eq_some_iff.1 hhere).1, fun hedge => ?_⟩
  rcases hcases with ⟨hpos, -⟩ | ⟨hpos, -⟩ | ⟨-, next, hnext, -⟩
  · rw [hpos] at hedge
    cases hedge
  · rw [hpos] at hedge
    cases hedge
  · exact (List.getElem?_eq_some_iff.1 hnext).1

theorem exists_point (h : s.Computed g) : ∃ p, s.point = some p := by
  obtain ⟨t, hloc, hpoint⟩ := h.located
  obtain ⟨d, shape, here, -, -, -, hcases⟩ := located_cases hloc
  rcases hcases with ⟨-, rfl⟩ | ⟨-, rfl⟩ | ⟨-, next, -, rfl⟩ <;>
    exact ⟨_, hpoint.trans (Splicing.point_measured _)⟩

/-- **The snap can be turned** to the direction of its road. -/
theorem exists_normalized (h : s.Computed g) (hpos : s.position ≠ .tower) :
    ∃ t, s.normalized g = .ok t := by
  obtain ⟨d, hd, hroad⟩ := h.closest
  obtain ⟨shape, hshape⟩ := hroad.exists_shape
  obtain ⟨hlt, hedge⟩ := h.place_lt hd hshape
  obtain ⟨b, hback⟩ := exists_runsBackwards hshape
  -- The way index of an inner point is below the last one, that of a segment one less.
  have hindex : s.indexFromEnd shape.reverse.length =
      some (shape.length - (s.wayIndex + (if s.position = .pillar then 1 else 2))) := by
    unfold indexFromEnd
    rw [Polyline.length_reverse]
    refine if_pos ?_
    split
    · exact hlt
    · exact hedge (by cases hcase : s.position <;> simp_all)
  cases b with
  | false => exact ⟨s, Splicing.normalized_self hback hd⟩
  | true => exact ⟨_, normalized_of_backwards hd hback (DirectedEdge.shape_reversed hshape) hindex⟩

end Snap.Computed

/-! ## §3. Success. -/

namespace Splicing

variable {snaps final : Array (Snap K)} {o : Overlay K}

/-- **Prepared snaps of one road** begin at one node. -/
theorem Prepared.base_eq {s s' t t' : Snap K} {d e : DirectedEdge} (hs : Prepared g s s')
    (ht : Prepared g t t') (hd : s'.closest = some d) (he : t'.closest = some e)
    (hroad : g.HasDirection d) (hroad' : g.HasDirection e) (hedge : d.edge = e.edge) :
    e.base = d.base := by
  obtain ⟨turned, hturned, hcases⟩ := hs
  obtain ⟨turned', hturned', hcases'⟩ := ht
  have hle := Snap.base_le_adj_of_normalized hturned
    (Prepared.exists_closest hturned hcases hd).1
  have hle' := Snap.base_le_adj_of_normalized hturned'
    (Prepared.exists_closest hturned' hcases' he).1
  rcases hroad.eq_or_reversed hroad' hedge with rfl | rfl
  · rfl
  · -- Both directions lead upwards, so the road is a loop.
    exact Nat.le_antisymm hle' hle

/-- **Nothing refuses snaps that can be turned** and have points, or are at towers. -/
theorem allowed_of_turned
    (hroads : ∀ s ∈ snaps, ∃ d, s.closest = some d ∧ g.HasDirection d)
    (hturned : ∀ s ∈ snaps, s.position ≠ .tower → ∃ t, s.normalized g = .ok t)
    (hpoints : ∀ s ∈ snaps, s.position ≠ .tower → ∃ p, s.point = some p) :
    Allowed (fun _ => False) g snaps := by
  have honRoads : OnRoads g snaps := by
    intro i s hs d hd
    obtain ⟨d', hd', hroad⟩ := hroads s (Array.mem_of_getElem? hs)
    exact Option.some.inj (hd.symm.trans hd') ▸ hroad
  refine ⟨fun i s hs hnone j => ?_, fun i s e hs hpos he => ?_,
    fun i s t e hs hpos ht hnone he => ?_, fun i s s' d e hs hf hd he => ?_,
    fun i j s s' t t' d d' hs ht hf hf' hd hd' hedge hne => ?_⟩
  · obtain ⟨d, hd, -⟩ := hroads s (Array.mem_of_getElem? hs)
    rw [hd] at hnone
    cases hnone
  · obtain ⟨t, ht⟩ := hturned s (Array.mem_of_getElem? hs) hpos
    rw [ht] at he
    cases he
  · obtain ⟨p, hp⟩ := hpoints s (Array.mem_of_getElem? hs) hpos
    rw [(Snap.point_normalized ht).1, hp] at hnone
    cases hnone
  · obtain ⟨shape, hshape⟩ := (hf.prepared.direction (honRoads i s hs) hd).exists_shape
    rw [hshape] at he
    cases he
  · exact hne (Prepared.base_eq hf.prepared hf'.prepared hd hd'
      (hf.prepared.direction (honRoads i s hs) hd)
      (hf'.prepared.direction (honRoads j t ht) hd') hedge)

theorem exists_build_of_allowed (h : Allowed (fun _ => False) g snaps) :
    ∃ o final, Overlay.build g snaps = (.ok o, final) := by
  rcases hbuild : Overlay.build g snaps with ⟨r, final⟩
  cases r with
  | error e => exact (build_failsOnly h (by rw [hbuild])).elim
  | ok o => exact ⟨o, final, rfl⟩

/-- **The overlay of snaps with computed points** is built. -/
theorem exists_build (h : ∀ (i : Nat) s, snaps[i]? = some s → s.Computed g) :
    ∃ o final, Overlay.build g snaps = (.ok o, final) := by
  have hcomputed : ∀ s ∈ snaps, s.Computed g := by
    intro s hs
    obtain ⟨i, hi⟩ := Array.mem_iff_getElem?.1 hs
    exact h i s hi
  exact exists_build_of_allowed (allowed_of_turned (fun s hs => (hcomputed s hs).closest)
    (fun s hs hpos => (hcomputed s hs).exists_normalized hpos)
    fun s hs _ => (hcomputed s hs).exists_point)

/-! ## §4. What becomes of the snaps. -/

/-- **A snap that has been settled** is at the anchor or at one of the stops behind it. -/
theorem node_of_mem_settledFrom (shape : Polyline K) {a : Anchor K} {n : NodeId}
    {ss : List (Snap K)} {t : Snap K} (ht : t ∈ settledFrom a n ss) :
    t.node = some a.node ∨ ∃ j < (stopsFrom shape a n ss).length, t.node = some (n + j) := by
  obtain ⟨x, hx, -, hnode⟩ := exists_end_of_settled ht
  rw [hnode]
  rcases end_cases shape hx with heq | ⟨j, hj, heq⟩
  · exact .inl (by rw [heq])
  · exact .inr ⟨j, hj, by rw [heq]⟩

/-- A snap that is filed is at no tower. -/
theorem Filed.not_tower_before {edge : EdgeId} {s s' : Snap K} (h : Filed g edge s s') :
    s.position ≠ .tower := by
  rw [← h.prepared.position_eq]
  exact h.not_tower

section

variable {groups : Groups} {prepared spliced : Splicing K} {cs : List (Chain K)}

/-- A snap at a tower stays as it is. -/
theorem BuildSteps.tower (h : BuildSteps g snaps final o groups prepared spliced cs) {i : Nat}
    {s : Snap K} (hs : snaps[i]? = some s) (hpos : s.position = .tower) : final[i]? = some s := by
  rw [← h.final_eq, h.roads.others i fun e is hmem hi => ?_]
  · exact h.grouped.towers i s hs hpos
  · obtain ⟨-, t, t', ht, -, hf⟩ := h.grouped.filed e is hmem i hi
    obtain rfl : s = t := Option.some.inj (hs.symm.trans ht)
    exact hf.not_tower_before hpos

/-- **The account of a road** on which there are snaps. -/
theorem BuildSteps.exists_resolved (h : BuildSteps g snaps final o groups prepared spliced cs)
    {e : EdgeId} {is : List Nat} (hmem : (e, is) ∈ groups) (hne : is ≠ []) :
    ∃ n closest shape start last ss,
      Resolved g prepared.snaps final is g.nodeCount cs n closest shape start last ss := by
  obtain ⟨n, closest, shape, start, last, ss, hr⟩ := h.roads.resolved e is hmem hne
  rw [h.final_eq, h.firstNode] at hr
  exact ⟨n, closest, shape, start, last, ss, hr⟩

/-- Any other snap is settled with those of its road. -/
theorem BuildSteps.exists_settled (h : BuildSteps g snaps final o groups prepared spliced cs)
    {i : Nat} {s : Snap K} (hs : snaps[i]? = some s) (hpos : s.position ≠ .tower) :
    ∃ e is n closest shape start last ss, (e, is) ∈ groups ∧ i ∈ is ∧
      Resolved g prepared.snaps final is g.nodeCount cs n closest shape start last ss ∧
      ∃ t ∈ settledFrom (baseAnchor closest start) n ss, final[i]? = some t := by
  obtain ⟨e, is, hmem, hi⟩ :=
    h.grouped.complete i s (Array.getElem?_eq_some_iff.1 hs).1 hs hpos
  obtain ⟨n, closest, shape, start, last, ss, hr⟩ := h.exists_resolved hmem (List.ne_nil_of_mem hi)
  obtain ⟨ordered, hperm, -, hsettled⟩ := hr.settled
  obtain ⟨t, ht, hread⟩ := exists_right hsettled (hperm.mem_iff.2 hi)
  exact ⟨e, is, n, closest, shape, start, last, ss, hmem, hi, hr, t, ht, hread⟩

/-- Building an overlay neither adds snaps nor drops any. -/
theorem BuildSteps.size_eq (h : BuildSteps g snaps final o groups prepared spliced cs) :
    final.size = snaps.size := by
  -- The lists are as long as each other because the same places can be read.
  have hread : ∀ i : Nat, final[i]?.isSome = snaps[i]?.isSome := by
    intro i
    cases hs : snaps[i]? with
    | some s =>
      by_cases hpos : s.position = .tower
      · rw [h.tower hs hpos]
      · obtain ⟨-, -, -, -, -, -, -, -, -, -, -, t, -, ht⟩ := h.exists_settled hs hpos
        rw [ht]
        rfl
    | none =>
      have hothers : ∀ e is, (e, is) ∈ groups → i ∉ is := by
        intro e is hmem hi
        obtain ⟨-, s, -, hs', -⟩ := h.grouped.filed e is hmem i hi
        rw [hs] at hs'
        cases hs'
      rw [← h.final_eq, h.roads.others i hothers,
        h.grouped.waiting i (Array.getElem?_eq_none_iff.1 hs), hs]
  refine Nat.le_antisymm (Nat.le_of_not_lt fun hlt => ?_) (Nat.le_of_not_lt fun hlt => ?_)
  · have hsome := hread snaps.size
    rw [Array.getElem?_eq_getElem hlt, Array.getElem?_eq_none (Nat.le_refl _)] at hsome
    cases hsome
  · have hsome := hread final.size
    rw [Array.getElem?_eq_getElem hlt, Array.getElem?_eq_none (Nat.le_refl _)] at hsome
    cases hsome

/-- The snaps of a road have been filed under it. -/
theorem BuildSteps.filed_of_resolved (h : BuildSteps g snaps final o groups prepared spliced cs)
    {e : EdgeId} {is : List Nat} {n : NodeId} {closest : DirectedEdge} {shape : Polyline K}
    {start last : Point K} {ss : List (Snap K)} (hmem : (e, is) ∈ groups)
    (hr : Resolved g prepared.snaps final is g.nodeCount cs n closest shape start last ss) {s : Snap K}
    (hs : s ∈ ss) : ∃ (i : Nat) (s₀ : Snap K), i ∈ is ∧ snaps[i]? = some s₀ ∧ Filed g e s₀ s := by
  obtain ⟨ordered, hperm, hread, -⟩ := hr.settled
  obtain ⟨i, hi, hi'⟩ := exists_left hread hs
  have hi := hperm.mem_iff.1 hi
  obtain ⟨-, s₀, s', hs₀, hs', hf⟩ := h.grouped.filed e is hmem i hi
  obtain rfl : s = s' := Option.some.inj (hi'.symm.trans hs')
  exact ⟨i, s₀, hi, hs₀, hf⟩

/-- **Where a snap is settled**: at the base node of its road or at a virtual node. -/
theorem BuildSteps.node_of_settled (h : BuildSteps g snaps final o groups prepared spliced cs)
    {is : List Nat} {n : NodeId} {closest : DirectedEdge} {shape : Polyline K}
    {start last : Point K} {ss : List (Snap K)}
    (hr : Resolved g prepared.snaps final is g.nodeCount cs n closest shape start last ss)
    {t : Snap K} (ht : t ∈ settledFrom (baseAnchor closest start) n ss) :
    t.node = some closest.base ∨ ∃ j < o.nodeCount, t.node = some (g.nodeCount + j) := by
  rcases node_of_mem_settledFrom shape ht with hnode | ⟨j, hj, hnode⟩
  · exact .inl hnode
  · obtain ⟨c, hc, -, rfl, hpoints, -⟩ := hr.chain (List.ne_nil_of_length_pos (Nat.zero_lt_of_lt hj))
    have hj : j < c.points.length := by rwa [hpoints, List.length_map]
    have hin := (h.roads.laid.carries c hc).node j _ (List.getElem?_eq_getElem hj)
    obtain ⟨⟨deltas, rfl⟩, -⟩ := (h.roads.laid.wellLinked h.distinct).buildDeltas_inv h.deltas
    exact .inr ⟨c.start + j, (Array.getElem?_eq_some_iff.1 hin).1, by rw [hnode, Nat.add_assoc]⟩

/-- **Every snap ends at a node** that there is. -/
theorem BuildSteps.exists_node (h : BuildSteps g snaps final o groups prepared spliced cs)
    (hg : g.WellFormed) (hsnaps : ∀ (i : Nat) s, snaps[i]? = some s → s.Computed g ∧ s.located g = .ok s)
    {i : Nat} {t : Snap K} (ht : final[i]? = some t) :
    ∃ n, t.node = some n ∧ n < (QueryGraph.ofOverlay g o).nodeCount := by
  have hreal : ∀ {d : DirectedEdge}, g.HasDirection d → ∀ {n}, n = d.base ∨ n = d.adj →
      n < (QueryGraph.ofOverlay g o).nodeCount := by
    intro d hroad n hn
    have hlt : n < g.nodeCount := by
      rcases hn with rfl | rfl
      · exact hg.touches_lt hroad.touches.1
      · exact hg.touches_lt hroad.touches.2
    exact Nat.lt_of_lt_of_le hlt (Nat.le_add_right _ _)
  have hlt : i < snaps.size := h.size_eq ▸ (Array.getElem?_eq_some_iff.1 ht).1
  have hs := Array.getElem?_eq_getElem hlt
  obtain ⟨hcomputed, hloc⟩ := hsnaps i _ hs
  obtain ⟨d, hd, hroad⟩ := hcomputed.closest
  by_cases hpos : snaps[i].position = .tower
  · -- A snap at a tower has the node of that end.
    obtain rfl : t = snaps[i] := Option.some.inj (ht.symm.trans (h.tower hs hpos))
    rcases Snap.node_of_located hloc hpos hd with hnode | hnode
    · exact ⟨d.base, hnode, hreal hroad (.inl rfl)⟩
    · exact ⟨d.adj, hnode, hreal hroad (.inr rfl)⟩
  · -- Any other has the base node of its road, or a virtual node.
    obtain ⟨e, is, n, closest, shape, start, last, ss, hmem, -, hr, t', ht', hread⟩ :=
      h.exists_settled hs hpos
    obtain rfl : t = t' := Option.some.inj (ht.symm.trans hread)
    rcases h.node_of_settled hr ht' with hnode | ⟨j, hj, hnode⟩
    · obtain ⟨first, hfirst, hclosest⟩ := hr.exists_first
      obtain ⟨k, s₀, -, hs₀, hf⟩ := h.filed_of_resolved hmem hr hfirst
      obtain ⟨d₀, hd₀, hroad₀⟩ := (hsnaps k s₀ hs₀).1.closest
      refine ⟨closest.base, hnode, hreal (hf.prepared.direction (fun d hd => ?_) hclosest) (.inl rfl)⟩
      exact Option.some.inj (hd₀.symm.trans hd) ▸ hroad₀
    · exact ⟨_, hnode, Nat.add_lt_add_left hj _⟩

end

end Splicing

/-! ## §5. The index and the overlay. -/

/-- **Overlay construction is total**: it reads nothing outside a table, takes no difference below
zero and refuses snaps only with a named cause.  What the index answers it does not refuse,
whichever segments the index looked at for each of the snaps (`LocationIndex.findClosest_eq`); and
then every snap knows a node of the query graph. -/
theorem overlay_build_total (hg : g.Built) (snaps : Array (Snap K)) :
    Checked.buildOverlay g snaps = Overlay.build g snaps ∧
      (∀ e, (Overlay.build g snaps).1 = .error e → Splicing.Refusal e) ∧
      ((∀ s ∈ snaps, s.closest.isSome = true ∧ ∃ lat lon accepts looked,
          LocationIndex.findAmong g lat lon accepts looked = .ok s) →
        ∃ o final, Overlay.build g snaps = (.ok o, final) ∧ final.size = snaps.size ∧
          ∀ s ∈ final, ∃ n, s.node = some n ∧ n < (QueryGraph.ofOverlay g o).nodeCount) := by
  refine ⟨Checked.buildOverlay_eq g snaps,
    fun e he => Splicing.build_failsOnly (Splicing.allowed_refusals g snaps) he, fun h => ?_⟩
  have hsnaps : ∀ (i : Nat) s, snaps[i]? = some s → s.Computed g ∧ s.located g = .ok s := by
    intro i s hs
    obtain ⟨hsome, lat, lon, accepts, looked, hfind⟩ := h s (Array.mem_of_getElem? hs)
    exact LocationIndex.computed_of_findAmong hfind hsome
  obtain ⟨o, final, hbuild⟩ := Splicing.exists_build fun i s hs => (hsnaps i s hs).1
  obtain ⟨groups, prepared, spliced, cs, hsteps⟩ := Splicing.exists_buildSteps hbuild
  refine ⟨o, final, hbuild, hsteps.size_eq, fun s hs => ?_⟩
  obtain ⟨i, hi⟩ := Array.mem_iff_getElem?.1 hs
  exact hsteps.exists_node hg.wellFormed hsnaps hi

/-- A snap that the index finds on a road, and the overlay of it. -/
theorem overlay_build_total_cutRoad :
    ∃ s, (LocationIndex.build (Splicing.cutRoad 0)).findClosest (Splicing.cutRoad 0) 0 0
        (fun _ => true) = .ok s ∧ s.closest.isSome = true ∧
      ∃ o final, Overlay.build (Splicing.cutRoad 0) #[s] = (.ok o, final) ∧ final.size = 1 ∧
        ∀ s ∈ final, ∃ n, s.node = some n ∧
          n < (QueryGraph.ofOverlay (Splicing.cutRoad 0) o).nodeCount := by
  obtain ⟨s, hs, hsome⟩ := LocationIndex.exists_findClosest (Splicing.cutRoad 0) 0 0 fun _ => true
  obtain ⟨r, hr, -⟩ := RoadGraph.hasDirection_onlyRoad (Exact.onParallel 0 0) (Exact.onParallel 0 3)
    [Exact.onParallel 0 1, Exact.onParallel 0 2] (Splicing.levelLength 0 (Splicing.atInner 0)
      (Splicing.between 0)) 0
  have hsome := hsome (fun _ => rfl) (LocationIndex.segments_ne_nil hr)
  obtain ⟨-, -, htotal⟩ := overlay_build_total (Splicing.built_cutRoad 0) #[s]
  refine ⟨s, hs, hsome, htotal fun t ht => ?_⟩
  obtain rfl : t = s := by simpa using ht
  exact ⟨hsome, 0, 0, fun _ => true, _, (LocationIndex.findClosest_eq _ _ _ _ _).symm.trans hs⟩

end RoadSplice

/-
  RoadSplice.Proofs.Query.Opened — query graphs while they are in use.

  A query graph is opened on a built overlay.  From then on headings and single requests mark its
  pieces, marks are taken back, other graphs on the same overlay do the same, flag words change.
  None of this touches what a node offers: pieces and roads that begin there, each of them found
  again by its number.  So every graph in use can be searched, and the search from node to node
  finds the shortest paths there.
-/
import RoadSplice.Proofs.Hierarchy.Roads
import RoadSplice.Proofs.Overlay.Representation
import RoadSplice.Proofs.Query.Edges
import RoadSplice.Proofs.Query.Marks
import RoadSplice.Query.Layered

namespace RoadSplice

variable {K : Type}

/-! ## §1. What a search needs. -/

/-- The pieces that a real node offers are the additions there. -/
theorem Overlay.placesAt_real {o : Overlay K} {n : NodeId} (hn : o.isVirtualNode n = false) :
    o.placesAt n = (o.deltaAt n).additions := by
  unfold placesAt deltaAt delta?
  rw [if_neg (by simp [hn]), Std.TreeMap.getD_eq_getD_getElem?]
  cases o.deltas[n]? <;> rfl

namespace QueryGraph

/-- **A graph that answers alike** whether it is asked for the edges of a node or for one of them:
its pieces are found again by their ids, and nodes offer pieces that begin there. -/
structure Sound (q : QueryGraph K) : Prop where
  base : q.base.WellFormed
  firstNode_eq : q.overlay.firstNode = q.base.nodeCount
  firstEdge_eq : q.overlay.firstEdge = q.base.edgeCount
  id : ∀ i p, q.overlay.piece? i = some p → q.overlay.index? p.id = some i
  starts : ∀ n, ∀ i ∈ q.overlay.placesAt n, n < q.overlay.firstNode + q.overlay.nodeCount ∧
    ∃ p, q.overlay.piece? i = some p ∧ p.base = n
  few : ∀ n, (q.overlay.placesAt n).length ≤ q.overlay.edgeCount

/-- **A graph that has just been opened** on a built overlay. -/
theorem sound_of_build [Scalar K] {g : RoadGraph K} {o : Overlay K}
    {snaps final : Array (Snap K)} (hg : g.WellFormed)
    (h : Overlay.build g snaps = (.ok o, final)) : (ofOverlay g o).Sound := by
  obtain ⟨hlinked, hfit, hnode, hedge⟩ := Overlay.build_tables h
  -- The two pieces of a virtual node are those that its slots name.
  have hvirtual : ∀ n, o.isVirtualNode n = true → ∃ m < o.nodeCount, n = o.firstNode + m ∧
      ∃ i j, o.placesAt n = [i, j] ∧ (∃ p, o.piece? i = some p ∧ p.base = n) ∧
        ∃ p, o.piece? j = some p ∧ p.base = n := by
    intro n hn
    obtain ⟨m, hm, rfl⟩ := Overlay.exists_of_isVirtualNode hn
    obtain ⟨hbefore, hbehind⟩ := hlinked.beside m hm
    obtain ⟨_, i, _, p, _, hi, _, hp, _, hpbase, _⟩ := hbefore
    obtain ⟨_, j, _, p', _, hj, _, hp', _, hpbase', _⟩ := hbehind
    refine ⟨m, hm, rfl, i, j, ?_, ⟨p, hp, hpbase⟩, ⟨p', hp', hpbase'⟩⟩
    rw [Overlay.placesAt, if_pos hn, Overlay.leaving, hi, hj]
    rfl
  have hreal : ∀ n, o.isVirtualNode n = false → ∀ i ∈ o.placesAt n, n < o.firstNode := by
    intro n hn i hi
    rw [Overlay.placesAt, if_neg (by simp [hn])] at hi
    cases hd : o.delta? n with
    | none => simp [hd] at hi
    | some d => exact hfit.real n d hd
  refine ⟨hg, hnode, hedge, fun i p hp => (hlinked.id i p hp).2.2, fun n i hi => ?_, fun n => ?_⟩
  · cases hn : o.isVirtualNode n with
    | true =>
      obtain ⟨m, hm, rfl, a, b, hplaces, ha, hb⟩ := hvirtual n hn
      refine ⟨Nat.add_lt_add_left hm _, ?_⟩
      have hi : i ∈ o.placesAt (o.firstNode + m) := hi
      rw [hplaces] at hi
      obtain rfl | rfl := List.mem_pair.1 hi
      · exact ha
      · exact hb
    | false =>
      refine ⟨Nat.lt_add_right _ (hreal n hn i hi), hfit.starts n i ?_⟩
      exact Overlay.placesAt_real hn ▸ hi
  · show (o.placesAt n).length ≤ o.edgeCount
    cases hn : o.isVirtualNode n with
    | true =>
      obtain ⟨m, hm, -, i, j, hplaces, -, -⟩ := hvirtual n hn
      rw [hplaces, hlinked.edgeCount_eq]
      show 2 ≤ 4 * o.nodeCount
      omega
    | false =>
      rw [Overlay.placesAt_real hn]
      have hsub : (o.deltaAt n).additions ⊆ o.slots.toList := fun i hi => by
        obtain ⟨p, hp, -⟩ := hfit.starts n i hi
        exact (Overlay.mem_slots_of_index? (hlinked.id i p hp).2.2).val
      have hle := (hfit.nodup n).length_le_of_subset hsub
      rwa [Array.length_toList] at hle

/-- An edge of a node is one of its pieces or a road. -/
theorem mem_edges_cases [Scalar K] {q : QueryGraph K} {n : NodeId} {v : EdgeView K}
    (hv : v ∈ q.edges n) :
    (∃ i ∈ q.overlay.placesAt n, q.pieceView i = some v) ∨ v ∈ q.base.edges n := by
  rw [show q.edges n = (ofOverlay q.base q.overlay).edges n from rfl, edges_eq] at hv
  obtain hv | hv := List.mem_append.1 hv
  · exact .inl (List.mem_filterMap.1 hv)
  · split at hv
    · cases hv
    · exact .inr (List.mem_of_mem_filter hv)

/-- **An offered edge is found again** by its number and the node to which it leads. -/
theorem Sound.edge_of_mem [Scalar K] {q : QueryGraph K} (h : q.Sound) {n : NodeId}
    {v : EdgeView K} (hv : v ∈ q.edges n) : q.edge v.edge (some v.adj) = .ok v := by
  obtain ⟨i, hi, hview⟩ | hv := mem_edges_cases hv
  · obtain ⟨p, hp, rfl⟩ := Option.map_eq_some_iff.1 hview
    unfold edge
    simp only [h.id i p hp, hp, ↓reduceIte, pieceViewOrFail, hview]
  · -- The ids of roads come before those of pieces, so the graph below is asked.
    obtain ⟨d, hd, rfl, rfl⟩ := (RoadGraph.mem_edges h.base).1 hv
    have hindex : q.overlay.index? (q.base.view d).edge = none := by
      obtain ⟨r, hr, -⟩ := hd.1
      refine Overlay.index?_of_lt ?_
      rw [h.firstEdge_eq]
      exact (Array.getElem?_eq_some_iff.1 hr).1
    unfold edge
    simp only [hindex]
    exact RoadGraph.edge_of_offers hd

/-- **What leads to a virtual node** is a piece. -/
theorem Sound.isVirtualEdge_of_mem [Scalar K] {q : QueryGraph K} (h : q.Sound) {n : NodeId}
    {v : EdgeView K} (hv : v ∈ q.edges n) (hadj : q.isVirtualNode v.adj = true) :
    q.isVirtualEdge v.edge = true := by
  obtain ⟨i, -, hview⟩ | hv := mem_edges_cases hv
  · obtain ⟨p, hp, rfl⟩ := Option.map_eq_some_iff.1 hview
    exact Option.isSome_iff_exists.2 ⟨i, h.id i p hp⟩
  · -- Roads lead to nodes of the graph below.
    obtain ⟨-, hlt⟩ := RoadGraph.adj_lt_of_mem_edges h.base hv
    rw [← h.firstNode_eq] at hlt
    have hreal : q.isVirtualNode v.adj = false := Overlay.isVirtualNode_of_lt hlt
    rw [hreal] at hadj
    cases hadj

/-- What a node offers begins there. -/
theorem Sound.base_of_mem [Scalar K] {q : QueryGraph K} (h : q.Sound) {n : NodeId} {v : EdgeView K}
    (hv : v ∈ q.edges n) : v.base = n := by
  -- A place of a node holds a piece that begins there.
  obtain ⟨i, hi, hview⟩ | hv := mem_edges_cases hv
  · obtain ⟨-, p, hp, rfl⟩ := h.starts n i hi
    obtain ⟨p', hp', rfl⟩ := Option.map_eq_some_iff.1 hview
    obtain rfl : p = p' := Option.some.inj (hp.symm.trans hp')
    rfl
  · exact (RoadGraph.adj_lt_of_mem_edges h.base hv).1

/-- **A sound graph can be searched.** -/
theorem Sound.readable {q : QueryGraph Exact} (h : q.Sound) : Readable q where
  outside n hn := by
    have hn : q.base.nodeCount + q.overlay.nodeCount ≤ n := hn
    refine List.eq_nil_iff_forall_not_mem.2 fun v hv => ?_
    obtain ⟨i, hi, -⟩ | hv := mem_edges_cases hv
    · have hlt := (h.starts n i hi).1
      rw [h.firstNode_eq] at hlt
      exact Nat.not_le.2 hlt hn
    · obtain ⟨d, hd, rfl, rfl⟩ := (RoadGraph.mem_edges h.base).1 hv
      exact Nat.not_le.2 (h.base.touches_lt hd.1.touches.1) (Nat.le_of_add_right_le hn)
  base_eq _ _ hv := h.base_of_mem hv
  found _ v hv := ⟨v, h.edge_of_mem hv⟩
  degree_le n := by
    show (q.edges n).length ≤ q.base.edgeCount + q.overlay.edgeCount
    rw [show q.edges n = (ofOverlay q.base q.overlay).edges n from rfl, edges_eq,
      List.length_append, Nat.add_comm]
    refine Nat.add_le_add ?_ (Nat.le_trans (List.length_filterMap_le _ _) (h.few n))
    -- A node lists each road at most once.
    have hroads : (q.base.edges n).length ≤ q.base.edgeCount := by
      rw [RoadGraph.edges, List.length_map]
      exact RoadGraph.length_directedEdges_le h.base n
    split
    · exact Nat.zero_le _
    · exact Nat.le_trans (List.length_filter_le _ _) hroads

end QueryGraph

/-! ## §2. Marks. -/

/-- Pieces with one mark changed. -/
theorem Overlay.piece?_setUnfavored (o : Overlay K) (i j : Nat) (b : Bool) :
    (o.setUnfavored i b).piece? j =
      (o.piece? j).map fun p => if i = j then { p with unfavored := b } else p := by
  unfold setUnfavored piece?
  rw [Array.getElem?_modify]
  split
  · rfl
  · simp

namespace QueryGraph

/-- **What no mark changes**, and no list of the marks that a graph has set. -/
structure KeptByMarks (P : QueryGraph K → Prop) : Prop where
  setMark : ∀ q i b, P q → P { q with overlay := q.overlay.setUnfavored i b }
  setTracked : ∀ q tracked, P q → P { q with tracked := tracked }

theorem keptByMarks_sound : KeptByMarks (Sound (K := K)) where
  setMark q i b h := by
    refine ⟨h.base, h.firstNode_eq, h.firstEdge_eq, fun j p hp => ?_, fun n j hj => ?_, h.few⟩
    · rw [Overlay.piece?_setUnfavored] at hp
      obtain ⟨p₀, hp₀, rfl⟩ := Option.map_eq_some_iff.1 hp
      have hid := h.id j p₀ hp₀
      split <;> exact hid
    · obtain ⟨hlt, p, hp, hbase⟩ := h.starts n j hj
      refine ⟨hlt, if i = j then { p with unfavored := b } else p, ?_, ?_⟩
      · rw [Overlay.piece?_setUnfavored, hp]
        rfl
      · split <;> exact hbase
  setTracked q tracked h := ⟨h.base, h.firstNode_eq, h.firstEdge_eq, h.id, h.starts, h.few⟩

/-- A sound graph is sound with any marks. -/
theorem Sound.remarked {g : RoadGraph K} {o : Overlay K} (h : (ofOverlay g o).Sound)
    (m : Nat → Bool) (t : List Nat) : (marking g o m t).Sound := by
  refine ⟨h.base, h.firstNode_eq, h.firstEdge_eq, fun i p hp => ?_, fun n i hi => ?_, h.few⟩
  · have hp : (o.withMarks m).piece? i = some p := hp
    rw [Overlay.piece?_withMarks] at hp
    obtain ⟨p₀, hp₀, rfl⟩ := Option.map_eq_some_iff.1 hp
    exact h.id i p₀ hp₀
  · obtain ⟨hlt, p₀, hp₀, hbase⟩ := h.starts n i hi
    exact ⟨hlt, _, piece?_marking hp₀, hbase⟩

namespace KeptByMarks

variable {P : QueryGraph K → Prop} {q q' : QueryGraph K}

theorem mark (hP : KeptByMarks P) (hq : P q) (i : Nat) : P (q.mark i) := by
  have hone : ∀ q i, P q → P (q.markOne i) := fun q i hq =>
    hP.setTracked _ _ (hP.setMark q i true hq)
  unfold QueryGraph.mark
  split
  · exact hq
  · exact hone _ _ (hone _ _ hq)

theorem clearMarks (hP : KeptByMarks P) (hq : P q) : P q.clearMarks := by
  have hfold : ∀ (is : List Nat) (o : Overlay K), P { q with overlay := o } →
      P { q with overlay := is.foldl (fun o i => o.setUnfavored i false) o } := by
    intro is
    induction is with
    | nil => exact fun o ho => ho
    | cons i is ih => exact fun o ho => ih _ (hP.setMark _ i false ho)
  exact hP.setTracked _ _ (hfold q.tracked q.overlay hq)

theorem enforceSlot [Scalar K] (hP : KeptByMarks P) (hq : P q) {node : NodeId} {favored : K}
    {incoming found : Bool} {slot : Slot}
    (h : QueryGraph.enforceSlot node favored incoming q slot = .ok (q', found)) : P q' := by
  unfold QueryGraph.enforceSlot at h
  cases hslot : q.overlay.slotOf? node slot with
  | none => simp [hslot] at h
  | some i =>
    cases hpiece : q.overlay.piece? i with
    | none => simp [hslot, hpiece] at h
    | some p =>
      simp only [hslot, hpiece] at h
      split at h
      · obtain rfl := congrArg Prod.fst (Except.ok.inj h)
        exact hP.mark hq i
      · obtain rfl := congrArg Prod.fst (Except.ok.inj h)
        exact hq

/-- **A heading** keeps what no mark changes. -/
theorem enforceHeading [Scalar K] (hP : KeptByMarks P) (hq : P q) {node : NodeId} {heading : K}
    {incoming found : Bool} (h : q.enforceHeading node heading incoming = .ok (q', found)) :
    P q' := by
  unfold QueryGraph.enforceHeading at h
  obtain ⟨-, -, h⟩ := except_bind.1 h
  split at h
  · obtain rfl := congrArg Prod.fst (Except.ok.inj h)
    exact hq
  · split at h
    · simp [except_bind] at h
    · refine foldlM_keeps (P := fun x => P x.1) (fun x slot y hx hstep => ?_) _ hq h
      obtain ⟨⟨q₂, found₂⟩, hslot, hstep⟩ := except_bind.1 hstep
      obtain rfl : q₂ = y.1 := congrArg Prod.fst (Except.ok.inj hstep)
      exact hP.enforceSlot hx hslot

theorem unfavorPair (hP : KeptByMarks P) (hq : P q) {node : NodeId} {edge : EdgeId}
    (h : q.unfavorPair node edge = .ok q') : P q' := by
  unfold QueryGraph.unfavorPair at h
  obtain ⟨-, -, h⟩ := except_bind.1 h
  cases hvirtual : q.isVirtualNode node with
  | false => simp [hvirtual, except_bind] at h
  | true =>
    cases hindex : q.overlay.index? edge with
    | none => simp [hvirtual, hindex] at h
    | some i =>
      cases harriving : arriving? q.overlay node i with
      | none => simp [hvirtual, hindex, harriving] at h
      | some arriving =>
        simp only [hvirtual, hindex, harriving] at h
        obtain rfl := Except.ok.inj h
        exact hP.mark hq arriving

theorem unfavorEdges (hP : KeptByMarks P) (hq : P q) (edges : List EdgeId) :
    P (q.unfavorEdges edges) := by
  induction edges generalizing q with
  | nil => exact hq
  | cons edge edges ih =>
    unfold QueryGraph.unfavorEdges
    split
    · exact hq
    · exact ih (hP.mark hq _)

end KeptByMarks

/-! ## §3. Graphs in use. -/

/-- **A query graph in use.** -/
inductive Opened [Scalar K] : QueryGraph K → Prop
  | ofBuild {g : RoadGraph K} {o : Overlay K} {snaps final : Array (Snap K)} :
      g.Built → Overlay.build g snaps = (.ok o, final) → Opened (ofOverlay g o)
  | reopen {q} : Opened q → Opened (ofOverlay q.base q.overlay)
  /-- Another graph on the same overlay sets a mark or takes it back. -/
  | setMark {q} (i : Nat) (unfavored : Bool) : Opened q →
      Opened { q with overlay := q.overlay.setUnfavored i unfavored }
  | enforceHeading {q q'} {node : NodeId} {heading : K} {incoming found : Bool} : Opened q →
      q.enforceHeading node heading incoming = .ok (q', found) → Opened q'
  | unfavorPair {q q'} {node : NodeId} {edge : EdgeId} : Opened q →
      q.unfavorPair node edge = .ok q' → Opened q'
  | unfavorEdges {q} (edges : List EdgeId) : Opened q → Opened (q.unfavorEdges edges)
  | clearMarks {q} : Opened q → Opened q.clearMarks
  | assign {q} {α : Type} (v : EdgeView K) (p : IntProperty) (encode : α → Except (Error K) Nat)
      (values : Assignment α) : Opened q → Opened (q.edit (RoadGraph.assign v p encode values)).2

/-- Flag words do not matter to what a node offers. -/
theorem Sound.withWords {q : QueryGraph K} (h : q.Sound) (words : Array Word) :
    Sound { q with base := { q.base with words := words } } :=
  ⟨h.base.of_touches rfl rfl fun _ _ => Iff.rfl, h.firstNode_eq, h.firstEdge_eq, h.id, h.starts,
    h.few⟩

/-- **What holds of every graph in use**: what building an overlay gives, marks keep and new flag
words leave. -/
theorem Opened.of_kept [Scalar K] {P : QueryGraph K → Prop} {q : QueryGraph K} (h : q.Opened)
    (hP : KeptByMarks P)
    (hbuild : ∀ {g : RoadGraph K} {o : Overlay K} {snaps final : Array (Snap K)}, g.Built →
      Overlay.build g snaps = (.ok o, final) → P (ofOverlay g o))
    (hwords : ∀ (q : QueryGraph K) words, P q → P { q with base := { q.base with words := words } }) :
    P q := by
  induction h with
  | ofBuild hg hrun => exact hbuild hg hrun
  | reopen _ ih => exact hP.setTracked _ [] ih
  | setMark i b _ ih => exact hP.setMark _ i b ih
  | enforceHeading _ hrun ih => exact hP.enforceHeading ih hrun
  | unfavorPair _ hrun ih => exact hP.unfavorPair ih hrun
  | unfavorEdges edges _ ih => exact hP.unfavorEdges ih edges
  | clearMarks _ ih => exact hP.clearMarks ih
  | @assign q _ v p encode values _ ih =>
    obtain ⟨words, heq⟩ := RoadGraph.after_assign v p encode values q.base
    show P ⟨RoadGraph.after (RoadGraph.assign v p encode values) q.base, q.overlay, q.tracked⟩
    rw [heq]
    exact hwords q words ih

/-- **Every query graph in use is sound.** -/
theorem Opened.sound [Scalar K] {q : QueryGraph K} (h : q.Opened) : q.Sound :=
  h.of_kept keptByMarks_sound (fun hg hrun => sound_of_build hg.wellFormed hrun)
    fun _ words hq => hq.withWords words

end QueryGraph

/-! ## §4. Searching. -/

/-- A built graph, or a query graph in use. -/
inductive Layered.Opened [Scalar K] : Layered K → Prop
  | plain {g : RoadGraph K} : g.Built → Opened (.plain g)
  | spliced {q : QueryGraph K} : q.Opened → Opened (.spliced q)

/-- A well-formed graph can be searched. -/
theorem RoadGraph.WellFormed.readable {g : RoadGraph Exact} (hg : g.WellFormed) : Readable g where
  outside n hn := by
    refine List.eq_nil_iff_forall_not_mem.2 fun v hv => ?_
    obtain ⟨d, hd, rfl, rfl⟩ := (RoadGraph.mem_edges hg).1 hv
    exact Nat.not_le.2 (hg.touches_lt hd.1.touches.1) hn
  base_eq _ _ hv := (RoadGraph.adj_lt_of_mem_edges hg hv).1
  found n v hv := by
    obtain ⟨d, hd, -, rfl⟩ := (RoadGraph.mem_edges hg).1 hv
    exact ⟨_, RoadGraph.edge_of_offers hd⟩
  degree_le n := by
    show (g.edges n).length ≤ g.edgeCount
    rw [RoadGraph.edges, List.length_map]
    exact RoadGraph.length_directedEdges_le hg n

theorem Layered.Opened.readable {n : Layered Exact} (h : n.Opened) : Readable n := by
  cases h with
  | plain hg =>
    have hr := hg.wellFormed.readable
    exact ⟨hr.outside, hr.base_eq, hr.found, hr.degree_le⟩
  | spliced hq =>
    have hr := hq.sound.readable
    exact ⟨hr.outside, hr.base_eq, hr.found, hr.degree_le⟩

/-- Every graph that can be searched finds its edges again. -/
theorem Layered.Opened.edge_of_mem [Scalar K] {n : Layered K} (h : n.Opened) {m : NodeId}
    {v : EdgeView K} (hv : v ∈ Network.edges n m) :
    Network.edge n v.edge (some v.adj) = .ok v := by
  cases h with
  | plain hg =>
    obtain ⟨d, hd, -, rfl⟩ := (RoadGraph.mem_edges hg.wellFormed).1 hv
    exact RoadGraph.edge_of_offers hd
  | spliced hq => exact hq.sound.edge_of_mem hv

/-- **The search from node to node is optimal and complete.**  It ends within its limit; it finds a
path exactly when a walk of finite weight leads to the target; and the path is a shortest one, also
beside walks over edges that are closed for good. -/
theorem dijkstra_optimal {n : Layered Exact} (hn : n.Opened) {w : Weighting Exact}
    (hw : NonnegWeights n w) (hturn : w.hasTurnCosts = false) (s t : NodeId) :
    (Search.run n w t (Search.limit n) (Search.start s)).isSome = true ∧
      ((dijkstra n w s t).isSome = true ↔ Reachable n w s t) ∧
      ∀ p, dijkstra n w s t = some p → ShortestPath n w s t p ∧
        ∀ us, IsWalk n s us t → (∀ u ∈ us, 0 ≤ w.edgeWeight u false) →
          p.weight ≤ walkWeight w us := by
  have hreadable := hn.readable
  obtain ⟨labels, hrun, -⟩ := Search.run_start hreadable hw hturn s t
  obtain ⟨hsome, hshortest⟩ := dijkstra_shortestPath hreadable hw hturn s t
  refine ⟨by rw [hrun]; rfl, hsome, fun p hp => ⟨hshortest p hp, fun us hus hnonneg => ?_⟩⟩
  have hpath := hshortest p hp
  have hsum : 0 ≤ walkWeight w us := Exact.zero_le_total fun a ha => by
    obtain ⟨u, hu, rfl⟩ := List.mem_map.1 ha
    exact hnonneg u hu
  -- A walk whose weight is no number costs more than any path.
  cases htotal : walkWeight w us with
  | real y => exact htotal ▸ hpath.least us hus ⟨y, htotal⟩
  | infinite m =>
    obtain ⟨x, hx⟩ := hpath.finite
    rw [htotal] at hsum
    simpa [hx] using hsum
  | nan => exact absurd (htotal ▸ hsum) (Exact.not_le_nan 0)

/-- Along an open road from one end to the other. -/
theorem dijkstra_optimal_openRoad :
    (Layered.Opened (.plain openRoad) ∧
      NonnegWeights (Layered.plain openRoad) SpeedWeighting.carWithoutTurns.toWeighting ∧
      SpeedWeighting.carWithoutTurns.toWeighting.hasTurnCosts = false) ∧
    ∃ p, dijkstra (Layered.plain openRoad) SpeedWeighting.carWithoutTurns.toWeighting 0 1 = some p ∧
      ShortestPath (Layered.plain openRoad) SpeedWeighting.carWithoutTurns.toWeighting 0 1 p := by
  have hbuilt : openRoad.Built := RoadGraph.built_oneRoad _ _ _ _ _
  have hopened : Layered.Opened (.plain openRoad) := .plain hbuilt
  have hw : NonnegWeights (Layered.plain openRoad) SpeedWeighting.carWithoutTurns.toWeighting :=
    nonnegWeights hbuilt.wellFormed (nonnegDistances_oneRoad _ _ _ (by simp) _) _
  obtain ⟨-, hsome, hshortest⟩ := dijkstra_optimal hopened hw rfl 0 1
  obtain ⟨p, hp⟩ := Option.isSome_iff_exists.1 (hsome.2 reachable_openRoad)
  exact ⟨⟨hopened, hw, rfl⟩, p, hp, (hshortest p hp).1⟩

end RoadSplice

/-
  RoadSplice.Proofs.Hierarchy.Ids — the ids of a view.

  A view keeps the ids of roads and raises those of virtual edges behind the last shortcut.  It is
  made exactly where all ids fit, and then raising and lowering them undo one another, do not wrap
  around and leave the shortcuts alone.  A raised id is looked up by other code than the id in the
  query graph; both accept the same nodes, refuse the others alike, and show the same piece, be it
  the one in the slot or the one paired with it.
-/
import RoadSplice.Proofs.Hierarchy.Pieces
import RoadSplice.Proofs.Query.Lookup

namespace RoadSplice

open HierarchyView QueryGraph

variable {K : Type} [Scalar K] {q : QueryGraph K} {v : HierarchyView K} {r : RoutingHierarchy K}
  {w : Weighting K} {e c : Nat}

/-! ## §1. Which ids are raised. -/

omit [Scalar K] in
/-- The virtual edges are numbered behind the roads. -/
theorem QueryGraph.isVirtualEdge_iff (hedge : q.overlay.firstEdge = q.base.edgeCount) :
    q.overlay.isVirtualEdge e = true ↔ q.base.edgeCount ≤ e ∧
      e < q.base.edgeCount + q.overlay.edgeCount := by
  unfold Overlay.isVirtualEdge
  rw [← hedge]
  by_cases hlt : e < q.overlay.firstEdge
  · rw [Overlay.index?_of_lt hlt]
    exact iff_of_false (by simp) fun h => Nat.not_lt.2 h.1 hlt
  · obtain ⟨s, rfl⟩ := Nat.exists_eq_add_of_le (Nat.le_of_not_lt hlt)
    rw [Overlay.index?_add, isSome_getElem?]
    exact ⟨fun hs => ⟨Nat.le_add_right _ _, Nat.add_lt_add_left hs _⟩,
      fun h => Nat.lt_of_add_lt_add_left h.2⟩

namespace HierarchyView.Made

/-- Ids of roads are kept. -/
theorem toHierarchyId_road (hv : v.Made r q w) (hedge : q.overlay.firstEdge = q.base.edgeCount)
    (he : e < q.base.edgeCount) : v.toHierarchyId e = e := by
  have hroad : q.overlay.isVirtualEdge e = false := by
    rw [← Bool.not_eq_true, isVirtualEdge_iff hedge]
    exact fun h => Nat.not_lt.2 h.1 he
  unfold toHierarchyId QueryGraph.isVirtualEdge
  rw [hv.query, hroad]
  rfl

/-- Ids of virtual edges are raised. -/
theorem toHierarchyId_virtual (hv : v.Made r q w) (he : q.overlay.isVirtualEdge e = true) :
    v.toHierarchyId e = e + v.shift := by
  unfold toHierarchyId QueryGraph.isVirtualEdge
  rw [hv.query, if_pos he]

theorem ofHierarchyId_of_lt (hv : v.Made r q w) (hc : c < r.edgeCount) : v.ofHierarchyId c = c := by
  unfold ofHierarchyId
  rw [hv.below, if_neg (Nat.not_le.2 hc)]

theorem ofHierarchyId_of_le (hv : v.Made r q w) (hc : r.edgeCount ≤ c) :
    v.ofHierarchyId c = c - v.shift := by
  unfold ofHierarchyId
  rw [hv.below, if_pos hc]

end HierarchyView.Made

/-! ## §2. Raising and lowering. -/

/-- **Ids that are raised and lowered without loss.**  Machine numbers of 32 bits give what numbers
without bounds give. -/
structure HierarchyView.Numbered (v : HierarchyView K) (r : RoutingHierarchy K)
    (q : QueryGraph K) : Prop where
  shift : q.base.edgeCount + v.shift = r.edgeCount
  road : ∀ e : Nat, e < q.base.edgeCount → v.toHierarchyId e = e
  raised : ∀ e : Nat, q.isVirtualEdge e = true → v.toHierarchyId e = e + v.shift ∧
    (UInt32.ofNat e + UInt32.ofNat v.shift).toNat = e + v.shift
  lowered : ∀ c : Nat, r.edgeCount ≤ c → v.shift ≤ c ∧ v.ofHierarchyId c = c - v.shift ∧
    (c < UInt32.size → (UInt32.ofNat c - UInt32.ofNat v.shift).toNat = c - v.shift)
  fits : ∀ e : Nat, e < q.edgeCount → v.toHierarchyId e < UInt32.size
  of_to : ∀ e : Nat, e < q.edgeCount → v.ofHierarchyId (v.toHierarchyId e) = e
  injective : ∀ e e' : Nat, e < q.edgeCount → e' < q.edgeCount →
    v.toHierarchyId e = v.toHierarchyId e' → e = e'
  /-- No shortcut is hit. -/
  gap : ∀ e : Nat, e < q.edgeCount →
    v.toHierarchyId e < q.base.edgeCount ∨ r.edgeCount ≤ v.toHierarchyId e
  to_of : ∀ c : Nat, r.edgeCount ≤ c → c < r.edgeCount + q.overlay.edgeCount →
    q.isVirtualEdge (v.ofHierarchyId c) = true ∧ v.toHierarchyId (v.ofHierarchyId c) = c

namespace HierarchyView.Made

/-- An id is that of a road, or it is raised. -/
theorem toHierarchyId_cases (hv : v.Made r q w)
    (hedge : q.overlay.firstEdge = q.base.edgeCount) (he : e < q.edgeCount) :
    (e < q.base.edgeCount ∧ v.toHierarchyId e = e) ∨
      (q.base.edgeCount ≤ e ∧ v.toHierarchyId e = e + v.shift) := by
  by_cases hroad : e < q.base.edgeCount
  · exact .inl ⟨hroad, hv.toHierarchyId_road hedge hroad⟩
  · have hle := Nat.le_of_not_lt hroad
    exact .inr ⟨hle, hv.toHierarchyId_virtual ((isVirtualEdge_iff hedge).2 ⟨hle, he⟩)⟩

/-- **Lowering takes raising back.** -/
theorem ofHierarchyId_toHierarchyId (hv : v.Made r q w)
    (hedge : q.overlay.firstEdge = q.base.edgeCount) (he : e < q.edgeCount) :
    v.ofHierarchyId (v.toHierarchyId e) = e := by
  have hshift := hv.shift
  rcases hv.toHierarchyId_cases hedge he with ⟨hroad, heq⟩ | ⟨hle, heq⟩
  · rw [heq]
    exact hv.ofHierarchyId_of_lt (by omega)
  · rw [heq, hv.ofHierarchyId_of_le (by omega)]
    exact Nat.add_sub_cancel ..

/-- **Where the ids fit, none is lost.** -/
theorem numbered (hv : v.Made r q w) (hedge : q.overlay.firstEdge = q.base.edgeCount) :
    v.Numbered r q := by
  have hshift := hv.shift
  have hlimit := hv.fits
  have hsize : edgeLimit + 1 = UInt32.size := rfl
  have hbits : UInt32.size = 2 ^ 32 := rfl
  have hof : ∀ e : Nat, e < q.edgeCount → v.ofHierarchyId (v.toHierarchyId e) = e :=
    fun e he => hv.ofHierarchyId_toHierarchyId hedge he
  refine ⟨hshift, fun e he => hv.toHierarchyId_road hedge he,
    fun e he => ⟨hv.toHierarchyId_virtual he, ?raised⟩,
    fun c hc => ⟨by omega, hv.ofHierarchyId_of_le hc, fun hfits => ?lowered⟩,
    fun e he => ?fits, hof, fun e e' he he' heq => ?injective, fun e he => ?gap,
    fun c hc hlt => ?to_of⟩
  case raised =>
    have hrange := (isVirtualEdge_iff hedge).1 he
    rw [UInt32.toNat_add, UInt32.toNat_ofNat', UInt32.toNat_ofNat']
    omega
  case lowered =>
    rw [UInt32.toNat_sub, UInt32.toNat_ofNat', UInt32.toNat_ofNat']
    omega
  case fits =>
    have hcount : e < q.base.edgeCount + q.overlay.edgeCount := he
    rcases hv.toHierarchyId_cases hedge he with ⟨hroad, heq⟩ | ⟨hle, heq⟩
    · rw [heq]
      show e < UInt32.size
      omega
    · rw [heq]
      show e + v.shift < UInt32.size
      omega
  case injective => rw [← hof e he, heq, hof e' he']
  case gap =>
    rcases hv.toHierarchyId_cases hedge he with ⟨hroad, heq⟩ | ⟨hle, heq⟩
    · rw [heq]
      exact .inl hroad
    · rw [heq]
      exact .inr (by omega)
  case to_of =>
    have hlowered : q.isVirtualEdge (c - v.shift) = true := by
      refine (isVirtualEdge_iff hedge).2 ?_
      omega
    rw [hv.ofHierarchyId_of_le hc]
    refine ⟨hlowered, ?_⟩
    rw [hv.toHierarchyId_virtual hlowered]
    exact Nat.sub_add_cancel (by omega)

end HierarchyView.Made

/-! ## §3. Looking up. -/

/-- **A piece of the query graph as the view shows it.** -/
structure HierarchyView.ShowsAs (v : HierarchyView K) (w : Weighting K) (u : EdgeView K)
    (f : HierarchyEdge K) : Prop where
  edge : f.edge = v.toHierarchyId u.edge
  underlying : f.underlying = some u.edge
  skipped : f.skipped = none
  base : f.base = u.base
  adj : f.adj = u.adj
  distance : f.distance = u.distance
  weightForward : f.weightForward = w.edgeWeight u false
  weightBackward : f.weightBackward = w.edgeWeight u true
  millisForward : f.millisForward = w.edgeMillis u false
  millisBackward : f.millisBackward = w.edgeMillis u true

namespace HierarchyView.Made

/-- **The piece at a place**, as both show it. -/
theorem exists_shown (hv : v.Made r q w) (hlinked : q.overlay.WellLinked) {i : Nat} {p : Piece K}
    (hp : q.overlay.piece? i = some p) : ∃ u f, q.pieceViewOrFail i = .ok u ∧
      v.pieceOrFail i = .ok f ∧ v.ShowsAs (wrap q.overlay w) u f ∧ f.base = p.base ∧
      f.adj = p.adj := by
  have hid : q.overlay.isVirtualEdge p.id = true := by
    unfold Overlay.isVirtualEdge
    rw [(hlinked.id i p hp).2.2]
    rfl
  obtain ⟨u, hu, hedge, hbase, hadj⟩ : ∃ u, q.pieceView i = some u ∧ u.edge = p.id ∧
      u.base = p.base ∧ u.adj = p.adj := ⟨_, pieceView_eq hp, rfl, rfl, rfl⟩
  have hf : v.pieces[i]? = some (pieceEdge (wrap q.overlay w) v.shift u) := by
    rw [hv.piece, hu]
    rfl
  refine ⟨u, pieceEdge (wrap q.overlay w) v.shift u, ?_, ?_,
    ⟨?_, rfl, rfl, rfl, rfl, rfl, rfl, rfl, rfl, rfl⟩, hbase, hadj⟩
  · unfold pieceViewOrFail
    rw [hu]
  · unfold pieceOrFail
    rw [hf]
  · show u.edge + v.shift = _
    rw [hedge, hv.toHierarchyId_virtual hid]

/-- **Both look-ups agree**: they show the same piece, or refuse the same node. -/
theorem edge_raised (hv : v.Made r q w) (hlinked : q.overlay.WellLinked)
    (hedge : q.overlay.firstEdge = q.base.edgeCount) (he : q.isVirtualEdge e = true)
    (adj : Option NodeId) :
    (∃ u f, q.edge e adj = .ok u ∧ v.edge (v.toHierarchyId e) adj = .ok f ∧
        v.ShowsAs (wrap q.overlay w) u f) ∨
      ∃ n, adj = some n ∧ q.edge e adj = .error (.edgeNotAdjacent e n) ∧
        v.edge (v.toHierarchyId e) adj = .error (.edgeNotAdjacent (v.toHierarchyId e) n) := by
  have hnumbered := hv.numbered hedge
  obtain ⟨hle, hlt⟩ := (isVirtualEdge_iff hedge).1 he
  obtain ⟨r', -, hnone⟩ | ⟨i, p, hindex, hp⟩ := id_cases hedge hlinked hlt
  · -- The id of a road is not virtual.
    have he : (q.overlay.index? e).isSome = true := he
    rw [hnone] at he
    cases he
  have hbehind : ¬ v.toHierarchyId e < v.below.edgeCount := by
    have hshift := hv.shift
    rw [hv.below, (hnumbered.raised e he).1]
    show ¬ e + v.shift < r.edgeCount
    omega
  have hquery : v.query.overlay.index? (v.ofHierarchyId (v.toHierarchyId e)) = some i := by
    rw [hv.query, hnumbered.of_to e hlt, hindex]
  obtain ⟨u, f, hu, hf, hshows, hbase, hadj⟩ := hv.exists_shown hlinked hp
  obtain ⟨-, p', hp', -, -⟩ := hlinked.pair i p hp
  obtain ⟨u', f', hu', hf', hshows', -⟩ := hv.exists_shown hlinked hp'
  have hpiece : v.query.overlay.piece? i = some p := by rw [hv.query, hp]
  unfold QueryGraph.edge HierarchyView.edge
  simp only [if_neg hbehind, hquery, hindex, hp, hf, bind, Except.bind]
  cases adj with
  | none => exact .inl ⟨u, f, hu, rfl, hshows⟩
  | some n =>
    dsimp only
    rw [hadj, hbase]
    by_cases hfirst : p.adj = n
    · rw [if_pos hfirst, if_pos hfirst]
      exact .inl ⟨u, f, hu, rfl, hshows⟩
    · rw [if_neg hfirst, if_neg hfirst]
      by_cases hsecond : p.base = n
      · rw [if_pos hsecond, if_pos hsecond, hpiece]
        exact .inl ⟨u', f', hu', hf', hshows'⟩
      · rw [if_neg hsecond, if_neg hsecond]
        exact .inr ⟨n, rfl, rfl, rfl⟩

/-- Ids behind the last one are not found. -/
theorem edge_of_le (hv : v.Made r q w) (hedge : q.overlay.firstEdge = q.base.edgeCount)
    (hc : r.edgeCount + q.overlay.edgeCount ≤ c) (adj : Option NodeId) :
    v.edge c adj = .error (.edgeNotFound c) := by
  have hshift := hv.shift
  have hbehind : ¬ c < v.below.edgeCount := by
    rw [hv.below]
    omega
  have hindex : v.query.overlay.index? (v.ofHierarchyId c) = none := by
    rw [hv.query, hv.ofHierarchyId_of_le (by omega)]
    refine index?_of_le hedge ?_
    show q.base.edgeCount + q.overlay.edgeCount ≤ c - v.shift
    omega
  unfold HierarchyView.edge
  simp only [if_neg hbehind, hindex]

end HierarchyView.Made

/-! ## §4. Every view. -/

/-- A view is refused where its ids do not fit or the hierarchy is smaller than the graph. -/
theorem HierarchyView.make_error (r : RoutingHierarchy K) (q : QueryGraph K) (w : Weighting K)
    (h : ¬ (q.base.edgeCount ≤ r.edgeCount ∧ r.edgeCount + q.overlay.edgeCount ≤ edgeLimit)) :
    make r q w = .error (.edgeIdOverflow r.edgeCount q.overlay.edgeCount) := by
  unfold make
  dsimp only
  rw [if_pos (by omega)]

/-- **The ids of a view are a checked bijection that commutes with looking up.**  For any hierarchy,
query graph in use and weighting, the view is made exactly where the hierarchy has at least the edges
of the graph and all ids fit in 32 bits.  Then no id wraps around, raising and lowering ids undo one
another, no shortcut is hit, the raised id of a virtual edge shows the edge that the query graph
shows and refuses what it refuses, and ids behind the last one are not found. -/
theorem view_ids_commute {q : QueryGraph K} (hq : q.Opened) (r : RoutingHierarchy K)
    (w : Weighting K) :
    ((∃ v, make r q w = .ok v) ↔
        q.base.edgeCount ≤ r.edgeCount ∧ r.edgeCount + q.overlay.edgeCount ≤ edgeLimit) ∧
      ((¬ ∃ v, make r q w = .ok v) →
        make r q w = .error (.edgeIdOverflow r.edgeCount q.overlay.edgeCount)) ∧
      ∀ v, make r q w = .ok v → v.Numbered r q ∧
        (∀ e adj, q.isVirtualEdge e = true →
          (∃ u f, q.edge e adj = .ok u ∧ v.edge (v.toHierarchyId e) adj = .ok f ∧
              v.ShowsAs (wrap q.overlay w) u f) ∨
            ∃ n, adj = some n ∧ q.edge e adj = .error (.edgeNotAdjacent e n) ∧
              v.edge (v.toHierarchyId e) adj = .error (.edgeNotAdjacent (v.toHierarchyId e) n)) ∧
        ∀ c adj, r.edgeCount + q.overlay.edgeCount ≤ c →
          v.edge c adj = .error (.edgeNotFound c) := by
  refine ⟨exists_make_iff, fun hnone => make_error r q w fun h => hnone (exists_make_iff.2 h),
    fun v hv => ?_⟩
  have hedge := hq.sound.firstEdge_eq
  have hv := made_of_make hv
  exact ⟨hv.numbered hedge, fun e adj he => hv.edge_raised hq.wellLinked hedge he adj,
    fun c adj hc => hv.edge_of_le hedge hc adj⟩

/-- A hierarchy with an edge for each of so many ids, of which only their number matters here. -/
noncomputable def RoutingHierarchy.counting (edgeCount : Nat) : RoutingHierarchy Exact :=
  { nodeCount := 2
    edgeCount := edgeCount
    baseEdgeCount := 1
    outEdges := fun _ => []
    inEdges := fun _ => []
    edge := fun e _ => .error (.edgeNotFound e)
    level := fun n => n
    turnWeight := fun _ => 0
    hasTurnCosts := false
    isEdgeBased := false }

/-- One road that is cut twice, beneath two shortcuts: the first virtual edge has id 1 in the query
graph and id 3 in the view, and both show the same piece. -/
theorem view_ids_commute_cutRoad :
    ∃ o final, Overlay.build (Splicing.cutRoad 0) Splicing.cutSnaps = (.ok o, final) ∧
      let q := ofOverlay (Splicing.cutRoad 0) o
      let w := SpeedWeighting.carWithoutTurns.toWeighting
      q.Opened ∧ ∃ v, make (.counting 3) q w = .ok v ∧
        v.toHierarchyId 1 = 3 ∧ v.ofHierarchyId 3 = 1 ∧
        (∃ u f, q.edge 1 none = .ok u ∧ v.edge 3 none = .ok f ∧
          v.ShowsAs (wrap q.overlay w) u f) ∧ v.edge 11 none = .error (.edgeNotFound 11) := by
  obtain ⟨o, final, hbuild, hspliced⟩ := Splicing.build_cutRoad 0
  have hopened : (ofOverlay (Splicing.cutRoad 0) o).Opened :=
    .ofBuild (Splicing.built_cutRoad 0) hbuild
  have hroads := Splicing.edgeCount_cutRoad 0
  have hnodes := Splicing.nodeCount_levelChain 0 hspliced.laid
  have hslots : o.edgeCount = 4 * o.nodeCount := hspliced.laid.slots_size
  obtain ⟨hmake, -, hview⟩ := view_ids_commute hopened (.counting 3)
    SpeedWeighting.carWithoutTurns.toWeighting
  obtain ⟨v, hv⟩ := hmake.2 ⟨by
    show (Splicing.cutRoad 0).edgeCount ≤ 3
    omega, by
    show 3 + o.edgeCount ≤ 4294967295
    omega⟩
  obtain ⟨hnumbered, hlookup, hbehind⟩ := hview v hv
  have hvirtual : (ofOverlay (Splicing.cutRoad 0) o).isVirtualEdge 1 = true := by
    refine (isVirtualEdge_iff hopened.sound.firstEdge_eq).2 ⟨?_, ?_⟩
    · show (Splicing.cutRoad 0).edgeCount ≤ 1
      omega
    · show 1 < (Splicing.cutRoad 0).edgeCount + o.edgeCount
      omega
  -- One road below, three edges in the hierarchy: virtual edges move up by two.
  have hshift : (Splicing.cutRoad 0).edgeCount + v.shift = 3 := hnumbered.shift
  have hraised : v.toHierarchyId 1 = 3 := by
    rw [(hnumbered.raised 1 hvirtual).1]
    show 1 + v.shift = 3
    omega
  refine ⟨o, final, hbuild, hopened, v, hv, hraised, ?_, ?_, hbehind 11 none ?_⟩
  · rw [← hraised]
    refine hnumbered.of_to 1 ?_
    show 1 < (Splicing.cutRoad 0).edgeCount + o.edgeCount
    omega
  · rcases hlookup 1 none hvirtual with hshown | ⟨n, hnone, -⟩
    · rw [hraised] at hshown
      exact hshown
    · cases hnone
  · show 3 + o.edgeCount ≤ 11
    omega

end RoadSplice

/-
  RoadSplice.Proofs.Query.Tracking — a query graph keeps track of its marks.

  On a freshly built overlay nothing is marked and nothing is listed.  A call marks what it lists
  and lists what it marks, always a piece together with its pair, and taking back clears exactly
  what is listed.  So as long as a graph is the only one on its overlay, its list names the pieces
  that report a mark, once each.
-/
import Mathlib.Data.List.Nodup
import RoadSplice.Proofs.Query.Edges
import RoadSplice.Proofs.Query.MarkCalls
import RoadSplice.Proofs.Query.Shown

namespace RoadSplice

variable {K : Type} [Scalar K] {g : RoadGraph K} {o : Overlay K}

/-! ## §1. Calls in a row. -/

/-- The graph after some calls. -/
def MarkCall.afterAll (calls : List (MarkCall K)) (q : QueryGraph K) : QueryGraph K :=
  calls.foldl (fun q c => c.after q) q

theorem MarkCall.afterAll_concat (calls : List (MarkCall K)) (c : MarkCall K)
    (q : QueryGraph K) : afterAll (calls ++ [c]) q = c.after (afterAll calls q) :=
  List.foldl_concat ..

namespace QueryGraph

/-- **Marks and list agree**: the marks are those of the places listed, once each, and with each
place that of the piece paired with it. -/
def InStep (g : RoadGraph K) (o : Overlay K) (q : QueryGraph K) : Prop :=
  ∃ t : List Nat, q = marking g o (fun i => t.contains i) t ∧ t.Nodup ∧ o.Paired t

omit [Scalar K] in
/-- A graph that has just been opened on a fresh overlay. -/
theorem inStep_ofOverlay (ho : o.Fresh) : InStep g o (ofOverlay g o) :=
  ⟨[], ofOverlay_eq_marking ho, List.nodup_nil, fun i hi => by simp at hi⟩

/-- **A call keeps marks and list in step.** -/
theorem InStep.after (ho : o.Fresh) {q : QueryGraph K} (h : InStep g o q) (c : MarkCall K) :
    InStep g o (c.after q) := by
  obtain ⟨t, rfl, hnodup, hpaired⟩ := h
  -- Clearing takes marks back; every other call only sets some and lists them.
  by_cases hc : c = .clear
  · subst hc
    refine ⟨[], ?_, List.nodup_nil, fun i hi => by simp at hi⟩
    rw [MarkCall.after_clear]
    congr 1
    funext i
    rw [Bool.and_not_self]
    rfl
  · obtain ⟨a, P, heffect⟩ := MarkCall.exists_effect (g := g) ho.linked hc
    refine ⟨P.foldl track t, ?_, nodup_foldl_track hnodup, fun i hi => ?_⟩
    · rw [heffect.after_eq]
      congr 1
      funext i
      rw [Bool.eq_iff_iff, Bool.or_eq_true, List.contains_iff_mem, List.contains_iff_mem,
        List.contains_iff_mem, mem_foldl_track]
    · rcases mem_foldl_track.1 hi with hi | hi
      · obtain ⟨p, hp, hpair⟩ := hpaired i hi
        exact ⟨p, hp, mem_foldl_track.2 (.inl hpair)⟩
      · obtain ⟨p, hp, hpair⟩ := heffect.paired i hi
        exact ⟨p, hp, mem_foldl_track.2 (.inr hpair)⟩

theorem InStep.afterAll (ho : o.Fresh) {q : QueryGraph K} (h : InStep g o q)
    (calls : List (MarkCall K)) : InStep g o (MarkCall.afterAll calls q) := by
  induction calls using List.reverseRecOn with
  | nil => exact h
  | append_singleton calls c ih =>
    rw [MarkCall.afterAll_concat]
    exact ih.after ho c

/-- A call that fails, or finds nothing to mark, changes nothing. -/
theorem InStep.after_idle (ho : o.Fresh) {q : QueryGraph K} (h : InStep g o q) {c : MarkCall K}
    (hidle : c.answer q ≠ .ok true) : c.after q = q := by
  obtain ⟨t, rfl, -⟩ := h
  by_cases hc : c = .clear
  · subst hc
    exact absurd rfl hidle
  · obtain ⟨a, P, heffect⟩ := MarkCall.exists_effect (g := g) ho.linked hc
    rw [heffect.answer_eq] at hidle
    rw [MarkCall.after, heffect.run, heffect.idle hidle]
    rfl

end QueryGraph

/-! ## §2. What a graph reports. -/

/-- The id of a slot of a virtual node. -/
def Overlay.slotId (o : Overlay K) (m : Nat) (slot : Slot) : EdgeId :=
  o.firstEdge + (m * slotsPerNode + slot.offset)

omit [Scalar K] in
theorem Overlay.index?_slotId (o : Overlay K) (m : Nat) (slot : Slot) :
    o.index? (o.slotId m slot) = o.slotOf? (o.firstNode + m) slot := by
  unfold slotId slotOf?
  rw [o.index?_add, if_neg (Nat.not_lt.2 (Nat.le_add_right _ _)), Nat.add_sub_cancel_left]

namespace QueryGraph

/-- **A graph that keeps track of its marks.** -/
structure KeepsTrack (q : QueryGraph K) : Prop where
  /-- What reports a mark is what is listed. -/
  exactly : ∀ v, q.Shows v → (v.unfavored = true ↔ v ∈ q.marked)
  /-- Nothing is listed twice. -/
  nodup : q.tracked.Nodup ∧ q.marked.Nodup
  /-- Every place that is listed is that of a piece. -/
  listed : q.marked.length = q.tracked.length
  /-- With a piece, the same piece in the opposite direction is listed. -/
  paired : ∀ v, q.Shows v → v.isVirtual = true → (v ∈ q.marked ↔ q.detach v ∈ q.marked)
  /-- Two neighbours on a road have an id each for either piece between them, and both ids show one
  view. -/
  shared : ∀ (m : Nat) u w, q.overlay.nodes[m]? = some u → q.overlay.nodes[m + 1]? = some w →
    u.road = w.road →
      (∃ v, q.edge (q.overlay.slotId m .snapToAdj) none = .ok v ∧
        q.edge (q.overlay.slotId (m + 1) .baseToSnap) none = .ok v) ∧
      ∃ v, q.edge (q.overlay.slotId m .adjToSnap) none = .ok v ∧
        q.edge (q.overlay.slotId (m + 1) .snapToBase) none = .ok v

omit [Scalar K] in
theorem mem_marked {q : QueryGraph K} {v : EdgeView K} :
    v ∈ q.marked ↔ ∃ i ∈ q.tracked, q.pieceView i = some v := List.mem_filterMap

omit [Scalar K] in
theorem piece_of_pieceView {q : QueryGraph K} {v : EdgeView K} {i : Nat}
    (h : q.pieceView i = some v) : v.piece = some i := by
  obtain ⟨p, -, rfl⟩ := Option.map_eq_some_iff.1 h
  rfl

omit [Scalar K] in
/-- The view of a piece is listed when its place is. -/
theorem mem_marked_iff {q : QueryGraph K} {v : EdgeView K} {i : Nat}
    (h : q.pieceView i = some v) : v ∈ q.marked ↔ i ∈ q.tracked := by
  rw [mem_marked]
  constructor
  · rintro ⟨j, hj, hview⟩
    obtain rfl : j = i := Option.some.inj
      ((piece_of_pieceView hview).symm.trans (piece_of_pieceView h))
    exact hj
  · exact fun hi => ⟨i, hi, h⟩

/-- The view of the only piece that an id shows. -/
theorem edge_of_index {q : QueryGraph K} {e : EdgeId} {i : Nat} {v : EdgeView K}
    (hindex : q.overlay.index? e = some i) (hview : q.pieceView i = some v) :
    q.edge e none = .ok v := by
  obtain ⟨p, hp, -⟩ := Option.map_eq_some_iff.1 hview
  unfold edge pieceViewOrFail
  simp only [hindex, hp, hview]

section

variable {t : List Nat}

omit [Scalar K] in
/-- The view of a piece on given marks. -/
theorem pieceView_marking (m : Nat → Bool) {i : Nat} {p : Piece K} (hp : o.piece? i = some p) :
    ∃ v, (marking g o m t).pieceView i = some v ∧ v.unfavored = m i :=
  ⟨_, pieceView_eq (piece?_marking hp), rfl⟩

omit [Scalar K] in
theorem exists_piece_of_pieceView {m : Nat → Bool} {i : Nat} {v : EdgeView K}
    (h : (marking g o m t).pieceView i = some v) :
    ∃ p, o.piece? i = some p ∧ v.unfavored = m i := by
  obtain ⟨p', hp', -⟩ := Option.map_eq_some_iff.1 h
  have hp' : (o.withMarks m).piece? i = some p' := hp'
  rw [Overlay.piece?_withMarks] at hp'
  obtain ⟨p, hp, -⟩ := Option.map_eq_some_iff.1 hp'
  obtain ⟨w, hw, hmark⟩ := pieceView_marking (g := g) (t := t) m hp
  obtain rfl : w = v := Option.some.inj (hw.symm.trans h)
  exact ⟨p, hp, hmark⟩

omit [Scalar K] in
/-- The view of a piece depends on its own mark and on no other. -/
theorem pieceView_congr {t' : List Nat} {m m' : Nat → Bool} {i : Nat} (h : m i = m' i) :
    (marking g o m t).pieceView i = (marking g o m' t').pieceView i := by
  show ((o.withMarks m).piece? i).map _ = ((o.withMarks m').piece? i).map _
  rw [Overlay.piece?_withMarks, Overlay.piece?_withMarks, h]
  rfl

/-- The other direction of a piece is the view at the place paired with it. -/
theorem detach_of_pieceView (hlinked : o.WellLinked) {m : Nat → Bool} {i : Nat} {p : Piece K}
    (hp : o.piece? i = some p) {v : EdgeView K} (h : (marking g o m t).pieceView i = some v) :
    (marking g o m t).pieceView p.pair = some ((marking g o m t).detach v) := by
  obtain ⟨-, p', hp', -⟩ := hlinked.pair i p hp
  obtain ⟨w, hw, -⟩ := pieceView_marking (g := g) (t := t) m hp'
  have hdetach : (marking g o m t).detach v = w := by
    unfold detach
    rw [piece_of_pieceView h]
    simp only [piece?_marking hp, Option.bind_some, hw, Option.getD_some]
  rw [hdetach]
  exact hw

/-- A slot that two neighbours share shows one view under both ids. -/
theorem edge_of_shared (hlinked : o.WellLinked) {m : Nat → Bool} {j k : Nat} {a b : Slot}
    {u : VirtualNode K} (hu : o.nodes[j]? = some u)
    (hslot : o.slotOf? (o.firstNode + j) a = o.slotOf? (o.firstNode + k) b) :
    ∃ v, (marking g o m t).edge (o.slotId j a) none = .ok v ∧
      (marking g o m t).edge (o.slotId k b) none = .ok v := by
  have hnode : o.isVirtualNode (o.firstNode + j) = true := by
    unfold Overlay.isVirtualNode Overlay.node?
    rw [if_neg (Nat.not_lt.2 (Nat.le_add_right _ _)), Nat.add_sub_cancel_left, hu]
    rfl
  obtain ⟨i, p, hi, hp⟩ := Marking.exists_piece_of_slot hlinked hnode a
  obtain ⟨v, hv, -⟩ := pieceView_marking (g := g) (t := t) m hp
  have hindex : (marking g o m t).overlay.index? (o.slotId j a) = some i :=
    (o.index?_slotId j a).trans hi
  have hindex' : (marking g o m t).overlay.index? (o.slotId k b) = some i :=
    (o.index?_slotId k b).trans (hslot.symm.trans hi)
  exact ⟨v, edge_of_index hindex hv, edge_of_index hindex' hv⟩

end

/-- **Marks and list in step** show in all that a graph reports. -/
theorem InStep.keepsTrack (hlinked : o.WellLinked) {q : QueryGraph K} (h : InStep g o q) :
    q.KeepsTrack := by
  obtain ⟨t, rfl, hnodup, hpaired⟩ := h
  -- Roads of the graph below bear no marks.
  have hreal : ∀ d, g.view d ∉ (marking g o (fun i => t.contains i) t).marked := by
    intro d hd
    obtain ⟨i, -, hi⟩ := mem_marked.1 hd
    cases piece_of_pieceView hi
  refine ⟨fun v hv => ?exactly, ⟨hnodup, hnodup.filterMap ?nodup⟩, ?listed,
    fun v hv hvirtual => ?paired, fun m u w hu hw hroad => ?shared⟩
  case exactly =>
    obtain ⟨d, rfl⟩ | ⟨i, hi⟩ := hv.views
    · exact iff_of_false (by simp [RoadGraph.view]) (hreal d)
    · obtain ⟨p, -, hmark⟩ := exists_piece_of_pieceView hi
      rw [mem_marked_iff hi, hmark]
      exact List.contains_iff_mem
  case nodup =>
    intro i j v hi hj
    exact Option.some.inj ((piece_of_pieceView hi).symm.trans (piece_of_pieceView hj))
  case listed =>
    refine List.filterMap_length_eq_length.2 fun i hi => ?_
    obtain ⟨p, hp, -⟩ := hpaired i hi
    obtain ⟨v, hv, -⟩ := pieceView_marking (g := g) (t := t) (fun i => t.contains i) hp
    rw [hv]
    rfl
  case paired =>
    obtain ⟨d, rfl⟩ | ⟨i, hi⟩ := hv.views
    · cases hvirtual
    · obtain ⟨p, hp, -⟩ := exists_piece_of_pieceView hi
      rw [mem_marked_iff hi, mem_marked_iff (detach_of_pieceView hlinked hp hi)]
      exact (hpaired.mem_iff hlinked hp).symm
  case shared =>
    obtain ⟨hforth, hback⟩ := hlinked.shared m u w hu hw hroad
    exact ⟨edge_of_shared hlinked hu hforth, edge_of_shared hlinked hu hback⟩

end QueryGraph

/-! ## §3. A single request. -/

/-- What is listed after a request for one piece. -/
theorem tracked_after_edges (ho : o.Fresh) {e : EdgeId} {i : Nat} {p : Piece K}
    (hindex : o.index? e = some i) (hp : o.piece? i = some p) :
    ((MarkCall.edges [e]).after (QueryGraph.ofOverlay g o)).tracked = [i, p.pair] := by
  have hne : p.pair ≠ i := (ho.linked.pair i p hp).1
  have hafter : (MarkCall.edges [e]).after (QueryGraph.ofOverlay g o) =
      (QueryGraph.ofOverlay g o).mark i := by
    show (QueryGraph.ofOverlay g o).unfavorEdges [e] = _
    have hindex : (QueryGraph.ofOverlay g o).overlay.index? e = some i := hindex
    simp only [QueryGraph.unfavorEdges, hindex]
  rw [hafter, QueryGraph.ofOverlay_eq_marking ho, QueryGraph.mark_marking hp,
    QueryGraph.foldl_markOne_marking]
  show [i, p.pair].foldl QueryGraph.track [] = [i, p.pair]
  simp [QueryGraph.track, hne]

omit [Scalar K] in
/-- The first slot of an overlay with a virtual node. -/
theorem exists_first_piece (h : o.WellLinked) (hcount : 0 < o.nodeCount) :
    ∃ i p, o.index? o.firstEdge = some i ∧ o.piece? i = some p := by
  have hslots : 0 < o.edgeCount := by
    rw [h.edgeCount_eq]
    omega
  obtain ⟨i, p, hi, hp⟩ := h.slot 0 hslots
  refine ⟨i, p, ?_, hp⟩
  unfold Overlay.index?
  rw [if_neg (Nat.lt_irrefl _), Nat.sub_self, hi]

/-! ## §4. Every run of calls. -/

/-- **Heading marks are tracked exactly.**  After any calls on a graph that has been opened on a
freshly built overlay, the edges that report a mark are those listed, once each and with each piece
its pair, and both ids of a shared piece show the same.  A further call that fails, or enforces a
heading for which nothing is unfavored, changes nothing; and taking back the marks leaves none, and
an empty list. -/
theorem marks_tracked_exactly {snaps final : Array (Snap K)}
    (h : Overlay.build g snaps = (.ok o, final)) (calls : List (MarkCall K)) :
    let q := MarkCall.afterAll calls (QueryGraph.ofOverlay g o)
    q.KeepsTrack ∧
      (∀ c : MarkCall K, (∀ q', c.result q ≠ .ok (q', true)) → c.after q = q) ∧
      q.clearMarks.tracked = [] ∧ ∀ v, q.clearMarks.Shows v → v.unfavored = false := by
  intro q
  have ho := Overlay.build_fresh h
  have hstep : QueryGraph.InStep g o q := (QueryGraph.inStep_ofOverlay ho).afterAll ho calls
  refine ⟨hstep.keepsTrack ho.linked, fun c hidle => ?_, rfl, fun v hv => ?_⟩
  · refine hstep.after_idle ho fun hanswer => ?_
    refine hidle (c.after q) ?_
    rw [c.result_eq, hanswer]
    rfl
  · -- Taking back marks is a call as well, and leaves nothing listed.
    have hcleared := (hstep.after ho .clear).keepsTrack ho.linked
    have hexactly := hcleared.exactly v hv
    rw [← Bool.not_eq_true, hexactly]
    intro hmem
    cases hmem

/-- A road that is cut twice, with its first piece marked. -/
theorem marks_tracked_exactly_cutRoad :
    ∃ o final, Overlay.build (Splicing.cutRoad 0) Splicing.cutSnaps = (.ok o, final) ∧
      let q := MarkCall.afterAll [.edges [o.firstEdge]]
        (QueryGraph.ofOverlay (Splicing.cutRoad 0) o)
      q.tracked ≠ [] ∧ q.KeepsTrack ∧ ∀ v, q.clearMarks.Shows v → v.unfavored = false := by
  obtain ⟨o, final, hbuild, hspliced⟩ := Splicing.build_cutRoad 0
  obtain ⟨htrack, -, -, hcleared⟩ :=
    marks_tracked_exactly hbuild [MarkCall.edges [o.firstEdge]]
  have ho := Overlay.build_fresh hbuild
  obtain ⟨i, p, hi, hp⟩ :=
    exists_first_piece ho.linked (Splicing.nodeCount_levelChain 0 hspliced.laid).1
  refine ⟨o, final, hbuild, ?_, htrack, hcleared⟩
  show ((MarkCall.edges [o.firstEdge]).after _).tracked ≠ []
  rw [tracked_after_edges ho hi hp]
  exact List.cons_ne_nil _ _

end RoadSplice

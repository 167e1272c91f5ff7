/-
  RoadSplice.Proofs.Query.Lookup — one edge, asked for in several ways.

  A query graph lists the edges of a node, shows an edge by its id, names the node at its other end
  and says whether a node is one of its ends.  Roads and pieces are answered for by different code,
  and the slots of two virtual nodes that follow one another name the pieces between them twice.
  All these ways agree on where an id leads, on what is refused and on which ids there are; and two
  ids of one piece differ in nothing but the id that a refusal names.
-/
import RoadSplice.Proofs.Query.Opened

namespace RoadSplice

variable {K : Type}

/-! ## §1. Marks leave the tables alone. -/

namespace Overlay

variable {o : Overlay K} {i j : Nat} {b : Bool} {p : Piece K}

/-- A piece keeps all but its mark. -/
theorem exists_piece?_setUnfavored (hp : o.piece? j = some p) :
    ∃ u, (o.setUnfavored i b).piece? j = some { p with unfavored := u } := by
  rw [piece?_setUnfavored, hp]
  by_cases hij : i = j
  · exact ⟨b, by simp [hij]⟩
  · exact ⟨p.unfavored, by simp [hij]⟩

/-- A piece has all but its mark from before. -/
theorem piece?_of_setUnfavored {p' : Piece K} (hp' : (o.setUnfavored i b).piece? j = some p') :
    ∃ p, o.piece? j = some p ∧ p' = { p with unfavored := p'.unfavored } := by
  rw [piece?_setUnfavored] at hp'
  obtain ⟨p, hp, rfl⟩ := Option.map_eq_some_iff.1 hp'
  refine ⟨p, hp, ?_⟩
  split <;> rfl

theorem roads_setUnfavored (o : Overlay K) (i : Nat) (b : Bool) :
    (o.setUnfavored i b).pieces.map (·.road) = o.pieces.map (·.road) := by
  refine Array.ext_getElem? fun j => ?_
  rw [Array.getElem?_map, Array.getElem?_map]
  show ((o.setUnfavored i b).piece? j).map _ = (o.piece? j).map _
  rw [piece?_setUnfavored, Option.map_map]
  refine congrArg (Option.map · (o.piece? j)) (funext fun p => ?_)
  show (if i = j then { p with unfavored := b } else p).road = p.road
  split <;> rfl

theorem Beside.setUnfavored {n : NodeId} {toward away : Slot} (h : o.Beside n toward away) :
    (o.setUnfavored i b).Beside n toward away := by
  obtain ⟨x, y, p, q, hx, hy, hp, hq, hends⟩ := h
  obtain ⟨u, hu⟩ := exists_piece?_setUnfavored (i := i) (b := b) hp
  obtain ⟨w, hw⟩ := exists_piece?_setUnfavored (i := i) (b := b) hq
  exact ⟨x, y, _, _, hx, hy, hu, hw, hends⟩

/-- **A mark leaves the tables as they are.** -/
theorem WellLinked.setUnfavored (h : o.WellLinked) (i : Nat) (b : Bool) :
    (o.setUnfavored i b).WellLinked where
  edgeCount_eq := h.edgeCount_eq
  slot s hs := by
    obtain ⟨j, p, hj, hp⟩ := h.slot s hs
    obtain ⟨u, hu⟩ := exists_piece?_setUnfavored (i := i) (b := b) hp
    exact ⟨j, _, hj, hu⟩
  pair j p' hp' := by
    obtain ⟨p, hp, hp'⟩ := piece?_of_setUnfavored hp'
    obtain ⟨hne, q, hq, hpair, hopposite⟩ := h.pair j p hp
    obtain ⟨u, hu⟩ := exists_piece?_setUnfavored (i := i) (b := b) hq
    rw [hp']
    exact ⟨hne, _, hu, hpair, hopposite.base, hopposite.adj, hopposite.reverse, hopposite.shape,
      hopposite.distance, hopposite.road⟩
  id j p' hp' := by
    obtain ⟨p, hp, hp'⟩ := piece?_of_setUnfavored hp'
    rw [hp']
    exact h.id j p hp
  beside m hm := ⟨(h.beside m hm).1.setUnfavored, (h.beside m hm).2.setUnfavored⟩
  together := h.together
  shared := h.shared
  owned m u hu := by
    -- What is counted are the roads of pieces, not their marks.
    refine Eq.trans ?_ (h.owned m u hu)
    have hroads := congrArg (Array.countP (· == u.road)) (roads_setUnfavored o i b)
    rwa [Array.countP_map, Array.countP_map] at hroads

end Overlay

namespace QueryGraph

/-- **The tables of every graph in use hang together.** -/
theorem Opened.wellLinked [Scalar K] {q : QueryGraph K} (h : q.Opened) : q.overlay.WellLinked := by
  have hkept : KeptByMarks fun q : QueryGraph K => q.overlay.WellLinked :=
    ⟨fun q i b hq => hq.setUnfavored i b, fun q t hq => hq⟩
  exact h.of_kept hkept (fun _ hbuild => Overlay.build_wellLinked hbuild) fun _ _ hq => hq

/-! ## §2. Which ids there are. -/

variable {q : QueryGraph K} {id : EdgeId}

/-- Ids behind the last one name no piece. -/
theorem index?_of_le (hedge : q.overlay.firstEdge = q.base.edgeCount) (hid : q.edgeCount ≤ id) :
    q.overlay.index? id = none := by
  have hle : q.overlay.firstEdge + q.overlay.slots.size ≤ id := hedge ▸ hid
  obtain ⟨s, rfl⟩ := Nat.exists_eq_add_of_le (Nat.le_of_add_right_le hle)
  rw [Overlay.index?_add]
  exact Array.getElem?_eq_none (Nat.le_of_add_le_add_left hle)

/-- **An id names a road or a slot with a piece.** -/
theorem id_cases (hedge : q.overlay.firstEdge = q.base.edgeCount) (hlinked : q.overlay.WellLinked)
    (hid : id < q.edgeCount) :
    (∃ r, q.base.roads[id]? = some r ∧ q.overlay.index? id = none) ∨
      ∃ i p, q.overlay.index? id = some i ∧ q.overlay.piece? i = some p := by
  by_cases hroad : id < q.base.edgeCount
  · exact .inl ⟨_, Array.getElem?_eq_getElem hroad, Overlay.index?_of_lt (hedge ▸ hroad)⟩
  · right
    have hlt : id < q.overlay.firstEdge + q.overlay.edgeCount := hedge ▸ hid
    obtain ⟨s, rfl⟩ := Nat.exists_eq_add_of_le (hedge ▸ Nat.le_of_not_lt hroad)
    obtain ⟨i, p, hi, hp⟩ := hlinked.slot s (Nat.lt_of_add_lt_add_left hlt)
    exact ⟨i, p, (q.overlay.index?_add s).trans hi, hp⟩

variable [Scalar K]

/-- An id that is refused in every way. -/
structure NotFound (q : QueryGraph K) (id : EdgeId) : Prop where
  edge : ∀ adj, q.edge id adj = .error (.edgeNotFound id)
  otherNode : ∀ n, q.otherNode id n = .error (.edgeNotFound id)
  isAdjacent : ∀ n, q.isAdjacent id n = false

theorem notFound_of_le (hedge : q.overlay.firstEdge = q.base.edgeCount) (hid : q.edgeCount ≤ id) :
    q.NotFound id := by
  have hindex := index?_of_le hedge hid
  have hpiece : q.overlay.virtualEdge? id = none := by
    unfold Overlay.virtualEdge?
    rw [hindex]
    rfl
  have hroad : q.base.roads[id]? = none :=
    Array.getElem?_eq_none (Nat.le_trans (Nat.le_add_right _ _) hid)
  refine ⟨fun adj => ?_, fun n => ?_, fun n => ?_⟩
  · unfold QueryGraph.edge RoadGraph.edge RoadGraph.directedTo
    simp only [hindex, hroad]
    rfl
  · unfold QueryGraph.otherNode RoadGraph.otherNode
    simp only [hpiece, hroad]
  · unfold QueryGraph.isAdjacent RoadGraph.isAdjacent
    simp only [hpiece, hroad]

/-! ## §3. What is answered for an id. -/

/-- **How an edge from `a` to `b` is answered for.**  It is shown towards `b` as in its own
direction and towards `a` as seen from the other end; each end has the other one for its other
node; and every other node is refused. -/
structure Answers (q : QueryGraph K) (id : EdgeId) (a b : NodeId) : Prop where
  shown : ∃ v, q.edge id none = .ok v ∧ q.edge id (some b) = .ok v ∧ v.base = a ∧ v.adj = b ∧
    (q.detach v).base = b ∧ (q.detach v).adj = a ∧ (a ≠ b → q.edge id (some a) = .ok (q.detach v))
  otherNode : q.otherNode id a = .ok b ∧ q.otherNode id b = .ok a
  refused : ∀ n, n ≠ a → n ≠ b → q.edge id (some n) = .error (.edgeNotAdjacent id n) ∧
    q.otherNode id n = .error (.edgeNotAdjacent id n)
  isAdjacent : ∀ n, q.isAdjacent id n = true ↔ n = a ∨ n = b

/-- A road is answered for by the graph below. -/
theorem answers_road {r : Road K} (hr : q.base.roads[id]? = some r)
    (hindex : q.overlay.index? id = none) : q.Answers id r.a r.b := by
  have hpiece : q.overlay.virtualEdge? id = none := by
    unfold Overlay.virtualEdge?
    rw [hindex]
    rfl
  have hplain : q.edge id none = .ok (q.base.view ⟨id, r.a, r.b, false⟩) := by
    unfold QueryGraph.edge RoadGraph.edge RoadGraph.directedTo
    simp only [hindex, hr]
    rfl
  have hedge : ∀ n, q.edge id (some n) = Except.map q.base.view
      (if n = r.b then .ok ⟨id, r.a, r.b, false⟩ else if n = r.a then .ok ⟨id, r.b, r.a, true⟩
        else .error (.edgeNotAdjacent id n)) := by
    intro n
    unfold QueryGraph.edge RoadGraph.edge RoadGraph.directedTo
    simp only [hindex, hr]
  have hother : ∀ n, q.otherNode id n = if n = r.a then .ok r.b else if n = r.b then .ok r.a
      else .error (.edgeNotAdjacent id n) := by
    intro n
    unfold QueryGraph.otherNode RoadGraph.otherNode
    simp only [hpiece, hr]
  refine ⟨⟨q.base.view ⟨id, r.a, r.b, false⟩, hplain, ?_, rfl, rfl, rfl, rfl, fun hne => ?_⟩,
    ⟨?_, ?_⟩, fun n ha hb => ⟨?_, ?_⟩, fun n => ?_⟩
  · rw [hedge, if_pos rfl]
    rfl
  · rw [hedge, if_neg hne, if_pos rfl]
    rfl
  · rw [hother, if_pos rfl]
  · -- The stored second end of a loop is its first one.
    rw [hother]
    by_cases hloop : r.b = r.a
    · rw [if_pos hloop, hloop]
    · rw [if_neg hloop, if_pos rfl]
  · rw [hedge, if_neg hb, if_neg ha]
    rfl
  · rw [hother, if_neg ha, if_neg hb]
  · unfold QueryGraph.isAdjacent RoadGraph.isAdjacent
    simp only [hpiece, hr, Bool.or_eq_true, beq_iff_eq, eq_comm (a := n)]

/-- A slot is answered for by its piece, and from the other end by the piece paired with it. -/
theorem answers_piece (hlinked : q.overlay.WellLinked) {i : Nat} {p : Piece K}
    (hindex : q.overlay.index? id = some i) (hp : q.overlay.piece? i = some p) :
    q.Answers id p.base p.adj := by
  obtain ⟨-, p', hp', -, hopposite⟩ := hlinked.pair i p hp
  have hpiece : q.overlay.virtualEdge? id = some p := by
    unfold Overlay.virtualEdge?
    rw [hindex]
    exact hp
  -- The piece is seen from its base node, the one paired with it from the other end.
  have hview : ∃ v, q.pieceView i = some v ∧ v.base = p.base ∧ v.adj = p.adj ∧
      v.piece = some i := ⟨_, pieceView_eq hp, rfl, rfl, rfl⟩
  have hback : ∃ u, q.pieceView p.pair = some u ∧ u.base = p.adj ∧ u.adj = p.base :=
    ⟨_, pieceView_eq hp', hopposite.base, hopposite.adj⟩
  obtain ⟨v, hv, hbase, hadj, hplace⟩ := hview
  obtain ⟨u, hu, hubase, huadj⟩ := hback
  have hdetach : q.detach v = u := by
    unfold QueryGraph.detach
    simp only [hplace, hp, Option.bind_some, hu, Option.getD_some]
  refine ⟨⟨v, ?_, ?_, hbase, hadj, hdetach ▸ hubase, hdetach ▸ huadj, fun hne => ?_⟩,
    ⟨?_, ?_⟩, fun n ha hb => ⟨?_, ?_⟩, fun n => ?_⟩
  · unfold QueryGraph.edge pieceViewOrFail
    simp only [hindex, hp, hv]
  · unfold QueryGraph.edge pieceViewOrFail
    simp only [hindex, hp, hv, ↓reduceIte]
  · unfold QueryGraph.edge pieceViewOrFail
    simp only [hindex, hp, if_neg (Ne.symm hne), ↓reduceIte, hu, hdetach]
  · unfold QueryGraph.otherNode
    simp only [hpiece, ↓reduceIte]
  · unfold QueryGraph.otherNode
    by_cases hloop : p.base = p.adj
    · simp only [hpiece, hloop, ↓reduceIte]
    · simp only [hpiece, if_neg hloop, ↓reduceIte]
  · unfold QueryGraph.edge
    simp only [hindex, hp, if_neg (Ne.symm ha), if_neg (Ne.symm hb)]
  · unfold QueryGraph.otherNode
    simp only [hpiece, if_neg (Ne.symm ha), if_neg (Ne.symm hb)]
  · unfold QueryGraph.isAdjacent
    simp only [hpiece, Bool.or_eq_true, beq_iff_eq, eq_comm (a := n)]

/-- **Every id is answered for.** -/
theorem Opened.exists_answers (h : q.Opened) (hid : id < q.edgeCount) : ∃ a b, q.Answers id a b := by
  rcases id_cases h.sound.firstEdge_eq h.wellLinked hid with ⟨r, hr, hindex⟩ | ⟨i, p, hindex, hp⟩
  · exact ⟨r.a, r.b, answers_road hr hindex⟩
  · exact ⟨p.base, p.adj, answers_piece h.wellLinked hindex hp⟩

/-- **What a node lists is answered for** from that node. -/
theorem Opened.answers_of_mem (h : q.Opened) {x : NodeId} {v : EdgeView K} (hv : v ∈ q.edges x) :
    q.Answers v.edge x v.adj ∨ q.Answers v.edge v.adj x := by
  have hbase := h.sound.base_of_mem hv
  obtain ⟨i, -, hview⟩ | hv := mem_edges_cases hv
  · obtain ⟨p, hp, rfl⟩ := Option.map_eq_some_iff.1 hview
    left
    rw [← hbase]
    exact answers_piece h.wellLinked (h.sound.id i p hp) hp
  · obtain ⟨d, hd, rfl, rfl⟩ := (RoadGraph.mem_edges h.sound.base).1 hv
    obtain ⟨r, hr, hdir⟩ := hd.1
    have hlt : d.edge < q.base.edgeCount := (Array.getElem?_eq_some_iff.1 hr).1
    have hroad := answers_road hr (Overlay.index?_of_lt (h.sound.firstEdge_eq.symm ▸ hlt))
    -- A node lists a road in the direction that begins there.
    rcases hdir with hdir | hdir
    · left
      show q.Answers d.edge d.base d.adj
      rw [hdir]
      exact hroad
    · right
      show q.Answers d.edge d.adj d.base
      rw [hdir]
      exact hroad

/-! ## §4. Two ids of one piece. -/

/-- **Ids that are answered for alike**, in what is shown, in the nodes at the ends and in the costs
of turns, also those of a weighting carried over to the query graph. -/
structure Alike (q : QueryGraph K) (id id' : EdgeId) : Prop where
  edge : ∀ adj v, q.edge id adj = .ok v ↔ q.edge id' adj = .ok v
  otherNode : ∀ n m, q.otherNode id n = .ok m ↔ q.otherNode id' n = .ok m
  isAdjacent : ∀ n, q.isAdjacent id n = q.isAdjacent id' n
  arriving : ∀ via out, q.turnCost ⟨id, via, out⟩ = q.turnCost ⟨id', via, out⟩
  departing : ∀ via into, q.turnCost ⟨into, via, id⟩ = q.turnCost ⟨into, via, id'⟩
  weighted : ∀ (w : Weighting K) via other,
    (wrap q.overlay w).turnWeight ⟨id, via, other⟩ =
        (wrap q.overlay w).turnWeight ⟨id', via, other⟩ ∧
      (wrap q.overlay w).turnWeight ⟨other, via, id⟩ =
        (wrap q.overlay w).turnWeight ⟨other, via, id'⟩ ∧
      (wrap q.overlay w).turnMillis ⟨id, via, other⟩ =
        (wrap q.overlay w).turnMillis ⟨id', via, other⟩ ∧
      (wrap q.overlay w).turnMillis ⟨other, via, id⟩ =
        (wrap q.overlay w).turnMillis ⟨other, via, id'⟩

end QueryGraph

namespace Overlay

variable {o : Overlay K} {e e' : EdgeId} {i : Nat}

/-- Whether one turns round is read off the pieces. -/
theorem isUTurn_of_index (h : o.index? e = some i) (other : EdgeId) :
    o.isUTurn e other = (match o.index? other with
      | some j => i == j || ((o.piece? i).map (·.pair)) == some j
      | none => false) ∧
    o.isUTurn other e = (match o.index? other with
      | some j => j == i || ((o.piece? j).map (·.pair)) == some i
      | none => false) := by
  unfold isUTurn
  rw [h]
  by_cases heq : other = e
  · subst heq
    simp [h]
  · cases hother : o.index? other <;> simp [heq, Ne.symm heq]

theorem roadOf_congr (h : o.index? e = some i) (h' : o.index? e' = some i)
    (hp : (o.piece? i).isSome = true) : o.roadOf e = o.roadOf e' := by
  obtain ⟨p, hp⟩ := Option.isSome_iff_exists.1 hp
  unfold roadOf virtualEdge?
  rw [h, h', Option.bind_some, hp]
  rfl

end Overlay

namespace QueryGraph

variable [Scalar K]

/-- A turn costs alike with either id of a piece. -/
theorem acrossOverlay_congr {o : Overlay K} {e e' : EdgeId} {i : Nat} (h : o.index? e = some i)
    (h' : o.index? e' = some i) (hp : (o.piece? i).isSome = true) (cost : Turn → K)
    (via : NodeId) (other : EdgeId) :
    acrossOverlay o cost ⟨e, via, other⟩ = acrossOverlay o cost ⟨e', via, other⟩ ∧
      acrossOverlay o cost ⟨other, via, e⟩ = acrossOverlay o cost ⟨other, via, e'⟩ := by
  unfold acrossOverlay roadTurn
  rw [o.roadOf_congr h h' hp]
  simp only [(Overlay.isUTurn_of_index h other).1, (Overlay.isUTurn_of_index h other).2,
    (Overlay.isUTurn_of_index h' other).1, (Overlay.isUTurn_of_index h' other).2, and_self]

/-- **Ids of one piece are answered for alike.** -/
theorem alike_of_index {q : QueryGraph K} (hlinked : q.overlay.WellLinked) {id id' : EdgeId}
    {i : Nat} (h : q.overlay.index? id = some i) (h' : q.overlay.index? id' = some i) :
    q.Alike id id' := by
  obtain ⟨p, hp⟩ : ∃ p, q.overlay.piece? i = some p := by
    unfold Overlay.index? at h
    split at h
    · cases h
    · obtain ⟨j, p, hj, hp⟩ := hlinked.slot _ (Array.getElem?_eq_some_iff.1 h).1
      obtain rfl := Option.some.inj (hj.symm.trans h)
      exact ⟨p, hp⟩
  have hpiece : q.overlay.virtualEdge? id = some p ∧ q.overlay.virtualEdge? id' = some p := by
    unfold Overlay.virtualEdge?
    rw [h, h']
    exact ⟨hp, hp⟩
  have hsome : (q.overlay.piece? i).isSome = true := by rw [hp]; rfl
  have hcost := fun cost via other => acrossOverlay_congr h h' hsome cost via other
  refine ⟨fun adj v => ?_, fun n m => ?_, fun n => ?_, fun via out => (hcost _ via out).1,
    fun via into => (hcost _ via into).2, fun w via other => ⟨(hcost _ via other).1,
      (hcost _ via other).2, ?_, ?_⟩⟩
  · -- Only a refusal names the id that has been asked for.
    unfold QueryGraph.edge
    simp only [h, h', hp]
    cases adj with
    | none => exact Iff.rfl
    | some n =>
      dsimp only
      split
      · exact Iff.rfl
      · split
        · exact Iff.rfl
        · simp
  · unfold QueryGraph.otherNode
    simp only [hpiece.1, hpiece.2]
    split
    · exact Iff.rfl
    · split
      · exact Iff.rfl
      · simp
  · unfold QueryGraph.isAdjacent
    rw [hpiece.1, hpiece.2]
  · unfold wrap roadTurn
    dsimp only
    rw [q.overlay.roadOf_congr h h' hsome]
  · unfold wrap roadTurn
    dsimp only
    rw [q.overlay.roadOf_congr h h' hsome]

/-! ## §5. Every graph in use. -/

/-- **All ways to ask for an edge agree.**  What a node lists is found again, exactly as it is
listed, by its id and the node to which it leads, has that node for its other end, and has both for
its ends.  Every id below the number of edges is answered for, towards its two end nodes and no
other; any other id is not found.  And two slots with one piece are answered for alike, turns
included. -/
theorem lookup_agrees {q : QueryGraph K} (h : q.Opened) :
    (∀ x, ∀ v ∈ q.edges x, v.base = x ∧ q.edge v.edge (some v.adj) = .ok v ∧
        q.otherNode v.edge x = .ok v.adj ∧ q.isAdjacent v.edge x = true ∧
        q.isAdjacent v.edge v.adj = true) ∧
      (∀ id, id < q.edgeCount → ∃ a b, q.Answers id a b) ∧
      (∀ id, q.edgeCount ≤ id → q.NotFound id) ∧
      ∀ id id' i, q.overlay.index? id = some i → q.overlay.index? id' = some i →
        q.Alike id id' := by
  refine ⟨fun x v hv => ?_, fun id hid => h.exists_answers hid,
    fun id hid => notFound_of_le h.sound.firstEdge_eq hid,
    fun id id' i hi hi' => alike_of_index h.wellLinked hi hi'⟩
  refine ⟨h.sound.base_of_mem hv, h.sound.edge_of_mem hv, ?_⟩
  rcases h.answers_of_mem hv with hanswers | hanswers
  · exact ⟨hanswers.otherNode.1, (hanswers.isAdjacent _).2 (.inl rfl),
      (hanswers.isAdjacent _).2 (.inr rfl)⟩
  · exact ⟨hanswers.otherNode.2, (hanswers.isAdjacent _).2 (.inr rfl),
      (hanswers.isAdjacent _).2 (.inl rfl)⟩

/-- The piece between the two fixes of a road that is cut twice has an id at either of them. -/
theorem lookup_agrees_cutRoad :
    ∃ o final, Overlay.build (Splicing.cutRoad 0) Splicing.cutSnaps = (.ok o, final) ∧
      let q := ofOverlay (Splicing.cutRoad 0) o
      q.Opened ∧ ∃ i, o.index? (o.firstEdge + 2) = some i ∧ o.index? (o.firstEdge + 4) = some i ∧
        q.Alike (o.firstEdge + 2) (o.firstEdge + 4) ∧ ∃ a b, q.Answers (o.firstEdge + 4) a b := by
  obtain ⟨o, final, hbuild, hspliced⟩ := Splicing.build_cutRoad 0
  have hopened : (ofOverlay (Splicing.cutRoad 0) o).Opened :=
    .ofBuild (Splicing.built_cutRoad 0) hbuild
  have hmem := List.mem_singleton_self (Splicing.levelChain 0 (Splicing.atInner 0)
    (Splicing.between 0))
  have hpoints := Splicing.points_levelChain 0
  have hread := (hspliced.laid.carries _ hmem).slot
  have hcount : (Splicing.levelChain 0 (Splicing.atInner 0) (Splicing.between 0)).slotCount = 8 := by
    unfold Chain.slotCount
    rw [hspliced.laid.parts_length _ hmem, hpoints]
    rfl
  -- The third and the fifth slot name the part behind the first fix.
  have hfirst := (o.index?_add 2).trans (hread 2 (by omega))
  have hsecond := (o.index?_add 4).trans (hread 4 (by omega))
  obtain ⟨-, hanswers, -, halike⟩ := lookup_agrees hopened
  refine ⟨o, final, hbuild, hopened, _, hfirst, hsecond, halike _ _ _ hfirst hsecond, ?_⟩
  apply hanswers
  show o.firstEdge + 4 < (Splicing.cutRoad 0).edgeCount + o.slots.size
  rw [← hspliced.firstEdge_eq]
  exact Nat.add_lt_add_left (Array.getElem?_eq_some_iff.1 (hread 4 (by omega))).1 _

end QueryGraph

end RoadSplice

/-
  RoadSplice.Proofs.Hierarchy.BothEnds — a view lists every arc at both its ends.

  A search that climbs from both ends reads what leaves a node and what enters it from two lists,
  which are filled separately: the hierarchy lists an open edge at the node where it begins and,
  turned round, at the node where it ends; the overlay adds its pieces, each direction by itself, and
  withdraws the roads that it cuts.  Yet the two lists tell of the same arcs.  What leaves one node
  for another is matched one to one by what enters the other from it: a road or shortcut by itself
  turned round, a piece by the piece paired with it, at the same cost in the direction of travel.

  Pieces match because a pair lies on one road in opposite directions and is marked as one; roads
  because both ends of a road withdraw it.  So the chains must run along roads of the graph: where a
  snap names other nodes than those of its road, an end of the road keeps what the other one lost.
-/
import RoadSplice.Proofs.Hierarchy.Pieces
import RoadSplice.Proofs.Hierarchy.Ranks
import RoadSplice.Proofs.Overlay.Loops
import RoadSplice.Proofs.Query.Sharing

namespace RoadSplice

open HierarchyEdge HierarchyView

/-! ## §1. Lists of a table. -/

section Lists

variable {K : Type} {nodeCount : Nat} {x y : NodeId}

/-- Edges listed at both their ends are matched from end to end. -/
structure Matched (t : Array (Array (HierarchyEdge K)) × Array (Array (HierarchyEdge K)))
    (nodeCount : Nat) : Prop where
  size_out : t.1.size = nodeCount
  size_inc : t.2.size = nodeCount
  matched : ∀ x y, ((listedAt t.1 x).filter fun e => e.adj = y).map reversed =
    (listedAt t.2 y).filter fun e => e.adj = x

theorem matched_noEntries (nodeCount : Nat) :
    Matched (noEntries nodeCount : Array (Array (HierarchyEdge K)) × _) nodeCount := by
  have hempty : ∀ n, listedAt (Array.replicate nodeCount (#[] : Array (HierarchyEdge K))) n = [] :=
    fun n => List.eq_nil_iff_forall_not_mem.2 (not_listed_noEntries nodeCount n)
  refine ⟨Array.size_replicate, Array.size_replicate, fun x y => ?_⟩
  rw [noEntries, hempty, hempty]
  rfl

/-- **One more edge**, listed at both its ends. -/
theorem Matched.listEnds {t : Array (Array (HierarchyEdge K)) × Array (Array (HierarchyEdge K))}
    (h : Matched t nodeCount) {f : HierarchyEdge K} (hbase : f.base < nodeCount)
    (hadj : f.adj < nodeCount) : Matched (RoadSplice.listEnds id reversed t f) nodeCount := by
  refine ⟨by simpa [RoadSplice.listEnds] using h.size_out,
    by simpa [RoadSplice.listEnds] using h.size_inc, fun x y => ?_⟩
  unfold RoadSplice.listEnds
  rw [listedAt_modify (h.size_out ▸ hbase), listedAt_modify (h.size_inc ▸ hadj),
    List.filter_append, List.filter_append, List.map_append, h.matched]
  congr 1
  have hturned : f.reversed.adj = f.base := rfl
  by_cases hx : f.base = x <;> by_cases hy : f.adj = y <;> simp [hx, hy, hturned]

theorem matched_listing {fs : List (HierarchyEdge K)}
    (hfs : ∀ f ∈ fs, f.base < nodeCount ∧ f.adj < nodeCount) :
    Matched (fs.foldl (listEnds id reversed) (noEntries nodeCount)) nodeCount := by
  induction fs using List.reverseRecOn with
  | nil => exact matched_noEntries nodeCount
  | append_singleton fs f ih =>
    obtain ⟨hbase, hadj⟩ := hfs f (by simp)
    rw [List.foldl_append]
    exact (ih fun f' hf' => hfs f' (by simp [hf'])).listEnds hbase hadj

end Lists

/-! ## §2. Lists of a hierarchy. -/

variable {K : Type} [Scalar K] {g : RoadGraph K} {w₀ : Weighting K} {h : Hierarchy K}
  {x y : NodeId} {e : HierarchyEdge K}

namespace Ranked

/-- An open direction of an edge joins two nodes. -/
theorem openDirection_lt (hr : Ranked g w₀ h) {f : HierarchyEdge K}
    (hf : f ∈ h.edges.toList.flatMap openDirections) : f.base < g.nodeCount ∧ f.adj < g.nodeCount := by
  obtain ⟨e, he, hf⟩ := List.mem_flatMap.1 hf
  have hends := hr.ends_lt e (Array.mem_toList_iff.1 he)
  obtain rfl | rfl := eq_or_reversed_of_mem hf
  · exact hends
  · exact hends.symm

/-- **What leaves a node for another** enters the other from it, turned round. -/
theorem matched (hr : Ranked g w₀ h) : Matched h.tables g.nodeCount := by
  rw [hr.tables]
  exact matched_listing fun f hf => hr.openDirection_lt hf

/-- What leaves a node begins there and is open. -/
theorem outEdges_open (hr : Ranked g w₀ h) (he : e ∈ h.outEdges x) :
    InTable h.edges e ∧ e.base = x ∧ x < g.nodeCount ∧ Scalar.isFinite e.weightForward = true := by
  have he : e ∈ listedAt h.tables.1 x := he
  rw [hr.tables] at he
  obtain he | ⟨f, hf, rfl, rfl⟩ := (listed_of_listEnds _ _).1 x e he
  · exact absurd he (not_listed_noEntries _ _ _)
  · obtain ⟨k, hk, hopen⟩ := List.mem_flatMap.1 hf
    refine ⟨?_, rfl, (hr.openDirection_lt hf).1, ?_⟩
    · obtain heq | heq := eq_or_reversed_of_mem hopen
      · exact .inl (heq ▸ Array.mem_toList_iff.1 hk)
      · rw [heq]
        exact inTable_reversed.2 (.inl (Array.mem_toList_iff.1 hk))
    · unfold openDirections at hopen
      split at hopen
      · cases hopen
      · exact (List.mem_filter.1 hopen).2

/-- What enters a node is seen from it, and is open against its direction. -/
theorem inEdges_open (hr : Ranked g w₀ h) (he : e ∈ h.inEdges y) :
    e.base = y ∧ e.reversed ∈ h.outEdges e.adj := by
  have hmem : e ∈ (listedAt h.tables.2 y).filter fun f => f.adj = e.adj :=
    List.mem_filter.2 ⟨he, by simp⟩
  rw [← hr.matched.matched] at hmem
  obtain ⟨f, hf, rfl⟩ := List.mem_map.1 hmem
  obtain ⟨hf, hadj⟩ := List.mem_filter.1 hf
  have hbase : f.base = f.reversed.adj := rfl
  refine ⟨of_decide_eq_true hadj, ?_⟩
  rw [reversed_reversed]
  exact hf

end Ranked

/-! ## §3. Lists matched entry by entry. -/

/-- What two lists hold at places that a pairing takes into one another is matched, in some order of
the second list. -/
theorem exists_perm_forall₂ {α β : Type} {R : α → β → Prop} {A B : List Nat} {F : Nat → Option α}
    {G : Nat → Option β} (pair : Nat → Nat) (hA : A.Nodup) (hB : B.Nodup)
    (hforth : ∀ i ∈ A, ∀ e, F i = some e →
      pair i ∈ B ∧ pair (pair i) = i ∧ ∃ f, G (pair i) = some f ∧ R e f)
    (hback : ∀ j ∈ B, ∀ f, G j = some f →
      pair j ∈ A ∧ pair (pair j) = j ∧ (F (pair j)).isSome = true) :
    ∃ fs, fs.Perm (B.filterMap G) ∧ List.Forall₂ R (A.filterMap F) fs := by
  -- Only the places that hold something count.
  have hopen : ∀ {γ : Type} (H : Nat → Option γ) (l : List Nat),
      (l.filter fun i => (H i).isSome).filterMap H = l.filterMap H := by
    intro γ H l
    rw [List.filterMap_filter]
    refine List.filterMap_congr fun i _ => ?_
    cases H i <;> rfl
  have hhere : ∀ i ∈ A.filter (fun i => (F i).isSome), ∃ e f, F i = some e ∧ pair i ∈ B ∧
      pair (pair i) = i ∧ G (pair i) = some f ∧ R e f := by
    intro i hi
    obtain ⟨hi, hsome⟩ := List.mem_filter.1 hi
    obtain ⟨e, he⟩ := Option.isSome_iff_exists.1 hsome
    obtain ⟨hmem, hpair, f, hf, hrel⟩ := hforth i hi e he
    exact ⟨e, f, he, hmem, hpair, hf, hrel⟩
  -- The pairing takes those of one list onto those of the other.
  have hperm : ((A.filter fun i => (F i).isSome).map pair).Perm (B.filter fun i => (G i).isSome) := by
    have hinj : ∀ i ∈ A.filter (fun i => (F i).isSome), ∀ j ∈ A.filter (fun i => (F i).isSome),
        pair i = pair j → i = j := by
      intro i hi j hj heq
      obtain ⟨-, -, -, -, hpi, -⟩ := hhere i hi
      obtain ⟨-, -, -, -, hpj, -⟩ := hhere j hj
      rw [← hpi, heq, hpj]
    refine (List.perm_ext_iff_of_nodup ((hA.filter _).map_on hinj) (hB.filter _)).2 fun j => ?_
    rw [List.mem_map, List.mem_filter]
    constructor
    · rintro ⟨i, hi, rfl⟩
      obtain ⟨-, f, -, hmem, -, hf, -⟩ := hhere i hi
      exact ⟨hmem, by rw [hf]; rfl⟩
    · rintro ⟨hj, hsome⟩
      obtain ⟨f, hf⟩ := Option.isSome_iff_exists.1 hsome
      obtain ⟨hmem, hpair, hopen⟩ := hback j hj f hf
      exact ⟨pair j, List.mem_filter.2 ⟨hmem, hopen⟩, hpair⟩
  refine ⟨((A.filter fun i => (F i).isSome).map pair).filterMap G, ?_, ?_⟩
  · rw [← hopen G B]
    exact hperm.filterMap G
  · rw [← hopen F A]
    generalize A.filter (fun i => (F i).isSome) = l at hhere
    -- Place by place, along the first list.
    induction l with
    | nil => exact .nil
    | cons i l ih =>
      obtain ⟨e, f, he, -, -, hf, hrel⟩ := hhere i List.mem_cons_self
      rw [List.map_cons, List.filterMap_cons_some he, List.filterMap_cons_some hf]
      exact .cons hrel (ih fun j hj => hhere j (List.mem_cons_of_mem i hj))

/-! ## §4. Lists of a view. -/

/-- **An arc seen from its two ends**: what leaves one node, and what enters the other.  Both cost the
same in the direction of travel, and are one road or shortcut, turned round, or the two pieces of a
pair. -/
structure HierarchyView.SameArc (v : HierarchyView K) (h : Hierarchy K) (e f : HierarchyEdge K) :
    Prop where
  base : f.base = e.adj
  adj : f.adj = e.base
  weight : f.weightBackward = e.weightForward
  millis : f.millisBackward = e.millisForward
  distance : f.distance = e.distance
  partner : (InTable h.edges e ∧ f = e.reversed) ∨ ∃ i p, v.query.overlay.piece? i = some p ∧
    v.pieces[i]? = some e ∧ v.pieces[p.pair]? = some f

/-- **A view that lists every arc at both its ends.** -/
structure HierarchyView.ListsBothEnds (v : HierarchyView K) (h : Hierarchy K) : Prop where
  out : ∀ x, ∀ e ∈ v.outEdges x, e.base = x ∧ Scalar.isFinite e.weightForward = true
  inc : ∀ y, ∀ e ∈ v.inEdges y, e.base = y ∧ Scalar.isFinite e.weightBackward = true
  /-- One to one: the partners are what enters the node, in some order. -/
  matched : ∀ x y, ∃ partners, partners.Perm ((v.inEdges y).filter fun e => e.adj = x) ∧
    List.Forall₂ (v.SameArc h) ((v.outEdges x).filter fun e => e.adj = y) partners

/-! ## §5. What the hierarchy adds. -/

variable {o : Overlay K} {cs : List (Chain K)} {n : NodeId}

/-- What has a road of its own is that road in a direction. -/
theorem Ranked.exists_direction (hr : Ranked g w₀ h) (hw : Woven g.RoadHop h.edges)
    (he : InTable h.edges e) {r : EdgeId} (hroad : e.underlying = some r) :
    ∃ d, g.HasDirection d ∧ d.base = e.base ∧ d.adj = e.adj ∧ d.edge = r := by
  -- A shortcut has no road, from whichever end it is seen.
  have hplain : e.skipped = none := by
    refine Option.eq_none_iff_forall_ne_some.2 fun ab hskipped => ?_
    obtain he | he := he
    · obtain ⟨i, hi⟩ := Array.mem_iff_getElem?.1 he
      obtain ⟨m, hover, -⟩ := hr.passes i e hi (by rw [hskipped]; rfl)
      rw [hover.underlying] at hroad
      cases hroad
    · obtain ⟨i, hi⟩ := Array.mem_iff_getElem?.1 he
      obtain ⟨m, hover, -⟩ := hr.passes i e.reversed hi (by simp [reversed, hskipped])
      have hnone : e.underlying = none := hover.underlying
      rw [hnone] at hroad
      cases hroad
  obtain ⟨-, d, hd, hhop⟩ := hw.hop e he hplain
  refine ⟨d, hd, (congrArg Hop.base hhop).symm, (congrArg Hop.adj hhop).symm, ?_⟩
  rw [← show (hopOf e).edge = d.edge from congrArg Hop.edge hhop, hopOf, hroad]
  rfl

/-- **Both ends of a road hide it alike.** -/
theorem Ranked.hides_eq (hr : Ranked g w₀ h) (hw : Woven g.RoadHop h.edges)
    (hs : Overlay.Spliced g o cs) (he : InTable h.edges e) {r : EdgeId}
    (hroad : e.underlying = some r) : o.hides e.base r = o.hides e.adj r := by
  obtain ⟨d, hd, hbase, hadj, rfl⟩ := hr.exists_direction hw he hroad
  rw [← hbase, ← hadj, Bool.eq_iff_iff, hs.hides_base hd]
  exact (hs.hides_base hd.reversed).symm

/-- The edges of the hierarchy that a node keeps. -/
def Overlay.kept (o : Overlay K) (n : NodeId) (es : List (HierarchyEdge K)) :
    List (HierarchyEdge K) :=
  if o.isVirtualNode n then [] else es.filter fun e => e.underlying.all fun r => !o.hides n r

omit [Scalar K] in
/-- No edge of the hierarchy is at a virtual node. -/
theorem Overlay.Fastened.kept_eq (hs : Overlay.Fastened g o cs) {es : List (HierarchyEdge K)}
    (hes : ∀ e ∈ es, n < g.nodeCount) :
    o.kept n es = es.filter fun e => e.underlying.all fun r => !o.hides n r := by
  unfold Overlay.kept
  split
  · rename_i hvirtual
    have hnil : es = [] := List.eq_nil_iff_forall_not_mem.2 fun e he => by
      rw [hs.isVirtualNode_of_lt (hes e he)] at hvirtual
      cases hvirtual
    rw [hnil]
    rfl
  · rfl

/-- **What is kept on one side is kept on the other.** -/
theorem Ranked.kept_matched (hr : Ranked g w₀ h) (hw : Woven g.RoadHop h.edges)
    (hs : Overlay.Spliced g o cs) (x y : NodeId) :
    ((o.kept x (h.outEdges x)).filter fun e => e.adj = y).map reversed =
      (o.kept y (h.inEdges y)).filter fun e => e.adj = x := by
  have hout : ∀ e ∈ h.outEdges x, x < g.nodeCount := fun e he => (hr.outEdges_open he).2.2.1
  have hin : ∀ e ∈ h.inEdges y, y < g.nodeCount := fun e he => by
    obtain ⟨hbase, hturned⟩ := hr.inEdges_open he
    obtain ⟨htable, -⟩ := hr.outEdges_open hturned
    rw [← hbase]
    obtain htable | htable := inTable_reversed.1 htable
    · exact (hr.ends_lt e htable).1
    · exact (hr.ends_lt _ htable).2
  -- The hierarchy's lists match before anything is hidden, and both ends hide the same roads.
  rw [hs.kept_eq hout, hs.kept_eq hin, List.filter_filter, List.filter_filter]
  have hmatched : ((h.outEdges x).filter fun e => e.adj = y).map reversed =
      (h.inEdges y).filter fun e => e.adj = x := hr.matched.matched x y
  simp only [Bool.and_comm (decide _)]
  rw [← List.filter_filter, ← List.filter_filter, ← hmatched, List.filter_map]
  refine congrArg (List.map reversed) (List.filter_congr fun e he => ?_)
  obtain ⟨he, hadj⟩ := List.mem_filter.1 he
  obtain ⟨htable, rfl, -⟩ := hr.outEdges_open he
  obtain rfl : e.adj = y := of_decide_eq_true hadj
  show e.underlying.all _ = e.underlying.all _
  cases hroad : e.underlying with
  | none => rfl
  | some r =>
    show (!o.hides e.base r) = !o.hides e.adj r
    rw [hr.hides_eq hw hs htable hroad]

/-! ## §6. What the overlay adds. -/

variable {q : QueryGraph K} {v : HierarchyView K} {r : RoutingHierarchy K} {w : SpeedWeighting K}
  {m : Nat → Bool}

/-- The pieces at some places that lead to a node. -/
theorem HierarchyView.filter_openPieces (v : HierarchyView K) (forward : Bool) (is : List Nat)
    (n : NodeId) : (v.openPieces forward is).filter (fun e => e.adj = n) =
      is.filterMap fun i => (v.pieces[i]?).filter fun e =>
        decide (e.adj = n) && Scalar.isFinite (if forward then e.weightForward else e.weightBackward) := by
  unfold openPieces
  rw [List.filter_filter, List.filter_filterMap]

namespace HierarchyView.Made

/-- A piece of the view is that of the overlay, with its mark. -/
theorem exists_piece (hv : v.Made r q w.toWeighting) (hq : q.overlay = o.withMarks m) {i : Nat}
    {p : Piece K} (hp : o.piece? i = some p) :
    ∃ u : EdgeView K, v.pieces[i]? = some (pieceEdge w.toWeighting v.shift u) ∧ u.base = p.base ∧
      u.adj = p.adj ∧ u.reverse = p.reverse ∧ u.distance = p.distance ∧
        u.word = q.base.word p.road ∧ u.unfavored = m i := by
  have hmarked : q.overlay.piece? i = some { p with unfavored := m i } := by
    rw [hq, Overlay.piece?_withMarks, hp]
    rfl
  rw [hv.piece, QueryGraph.pieceView_eq hmarked]
  exact ⟨_, rfl, rfl, rfl, rfl, rfl, rfl, rfl⟩

/-- **The two pieces of a pair** are one arc seen from its two ends, where they are marked alike. -/
theorem exists_sameArc (hv : v.Made r q w.toWeighting) (hq : q.overlay = o.withMarks m)
    (hlinked : o.WellLinked) (hmarks : ∀ i p, o.piece? i = some p → m p.pair = m i) {i : Nat}
    {p : Piece K} (hp : o.piece? i = some p) (h : Hierarchy K) :
    ∃ e f, v.pieces[i]? = some e ∧ v.pieces[p.pair]? = some f ∧ e.base = p.base ∧ e.adj = p.adj ∧
      v.SameArc h e f := by
  obtain ⟨-, p', hp', hpair, hopposite⟩ := hlinked.pair i p hp
  obtain ⟨u, hu, hbase, hadj, hreverse, hdistance, hword, hmark⟩ := hv.exists_piece hq hp
  obtain ⟨u', hu', hbase', hadj', hreverse', hdistance', hword', hmark'⟩ := hv.exists_piece hq hp'
  -- The two pieces differ in their ends and their direction only.
  have hwords : u'.word = u.word := by rw [hword', hword, hopposite.road]
  have hdistances : u'.distance = u.distance := by rw [hdistance', hdistance, hopposite.distance]
  have hdirections : u'.direction true = u.direction false := by
    unfold EdgeView.direction
    rw [hreverse', hreverse, hopposite.reverse]
    cases p.reverse <;> rfl
  refine ⟨_, _, hu, hu', hbase, hadj, ?base, ?adj, ?weight, ?millis, hdistances, .inr ⟨i, ?_⟩⟩
  case base => exact hbase'.trans (hopposite.base.trans hadj.symm)
  case adj => exact hadj'.trans (hopposite.adj.trans hbase.symm)
  case weight =>
    refine w.edgeWeight_congr hwords hdirections hdistances ?_
    rw [hmark', hmark, hmarks i p hp]
  case millis => exact w.edgeMillis_congr hwords hdirections hdistances
  · refine ⟨{ p with unfavored := m i }, ?_, hu, hu'⟩
    rw [hv.query, hq, Overlay.piece?_withMarks, hp]
    rfl

/-- **The pieces that leave a node for another** are matched by those that enter the other from it. -/
theorem openPieces_matched (hv : v.Made r q w.toWeighting) (hq : q.overlay = o.withMarks m)
    (hs : Overlay.Spliced g o cs) (hg : g.WellFormed) (hlinked : o.WellLinked)
    (hmarks : ∀ i p, o.piece? i = some p → m p.pair = m i) (h : Hierarchy K) (x y : NodeId) :
    ∃ partners, partners.Perm ((v.openPieces false (o.placesAt y)).filter fun e => e.adj = x) ∧
      List.Forall₂ (v.SameArc h) ((v.openPieces true (o.placesAt x)).filter fun e => e.adj = y)
        partners := by
  rw [filter_openPieces, filter_openPieces]
  refine exists_perm_forall₂ (fun i => (o.piece? i).elim i (·.pair)) (hs.nodup_placesAt x)
    (hs.nodup_placesAt y) ?forth ?back
  case forth =>
    intro i hi e he
    obtain ⟨p, hp, rfl⟩ := (hs.mem_placesAt_iff hg).1 hi
    obtain ⟨-, p', hp', hpair, hopposite⟩ := hlinked.pair i p hp
    obtain ⟨e', f, he', hf, hbase, hadj, harc⟩ := hv.exists_sameArc hq hlinked hmarks hp h
    rw [he', Option.filter_eq_some_iff] at he
    obtain ⟨heq, hopen⟩ := he
    obtain rfl := Option.some.inj heq
    simp only [Bool.and_eq_true, decide_eq_true_eq, if_true] at hopen
    simp only [hp, hp', Option.elim_some]
    -- The pair begins where the piece leads to, and leads to where it begins.
    refine ⟨(hs.mem_placesAt_iff hg).2 ⟨p', hp', ?_⟩, hpair, f, ?_, harc⟩
    · rw [hopposite.base, ← hadj, hopen.1]
    · rw [hf, Option.filter_eq_some_iff]
      refine ⟨rfl, ?_⟩
      simp [harc.adj, hbase, harc.weight, hopen.2]
  case back =>
    intro j hj f hf
    obtain ⟨p, hp, rfl⟩ := (hs.mem_placesAt_iff hg).1 hj
    obtain ⟨-, p', hp', hpair, hopposite⟩ := hlinked.pair j p hp
    obtain ⟨e, f', he, hf', hbase, hadj, harc⟩ := hv.exists_sameArc hq hlinked hmarks hp' h
    -- The pair of the pair is the piece itself.
    rw [hpair] at hf'
    rw [hf', Option.filter_eq_some_iff] at hf
    obtain ⟨heq, hopen⟩ := hf
    obtain rfl := Option.some.inj heq
    simp only [Bool.and_eq_true, decide_eq_true_eq, Bool.false_eq_true, if_false] at hopen
    simp only [hp, hp', Option.elim_some]
    refine ⟨(hs.mem_placesAt_iff hg).2 ⟨p', hp', ?_⟩, hpair, ?_⟩
    · rw [← hbase, ← harc.adj, hopen.1]
    · have hleads : e.adj = p.base := by rw [hadj, hopposite.adj]
      rw [he, Option.filter_some]
      simp [hleads, ← harc.weight, hopen.2]

/-- A piece that is listed at a node begins there and is open. -/
theorem openPieces_open (hv : v.Made r q w.toWeighting) (hq : q.overlay = o.withMarks m)
    (hs : Overlay.Spliced g o cs) (hg : g.WellFormed) {forward : Bool}
    (he : e ∈ v.openPieces forward (o.placesAt n)) : e.base = n ∧
      Scalar.isFinite (if forward then e.weightForward else e.weightBackward) = true := by
  obtain ⟨hlisted, hopen⟩ := List.mem_filter.1 he
  obtain ⟨i, hi, hpiece⟩ := List.mem_filterMap.1 hlisted
  obtain ⟨p, hp, hbegins⟩ := (hs.mem_placesAt_iff hg).1 hi
  obtain ⟨u, hu, hbase, -⟩ := hv.exists_piece hq hp
  obtain rfl := Option.some.inj (hu.symm.trans hpiece)
  exact ⟨hbase.trans hbegins, hopen⟩

/-! ## §7. What a view lists. -/

/-- A side of a view lists pieces, and behind them what is kept of the hierarchy. -/
theorem edgesAt_withMarks (hv : v.Made r q w.toWeighting) (hq : q.overlay = o.withMarks m)
    (forward : Bool) (below : NodeId → List (HierarchyEdge K)) (n : NodeId) :
    v.edgesAt forward below n = v.openPieces forward (o.placesAt n) ++ o.kept n (below n) := by
  rw [edgesAt_eq, hv.query, hq]
  rfl

end HierarchyView.Made

omit [Scalar K] in
/-- What a node keeps is listed by the hierarchy. -/
theorem Overlay.mem_of_mem_kept {es : List (HierarchyEdge K)} (he : e ∈ o.kept n es) : e ∈ es := by
  unfold Overlay.kept at he
  split at he
  · cases he
  · exact List.mem_of_mem_filter he

open SharedGraphs in
/-- **A view lists every arc at both its ends.**  Take any overlay built along roads of the graph, any
hierarchy of the graph, any calls that set or take back marks, on any graphs over the overlay, and
the view made of one of them.  What leaves a node begins there and is open, what enters a node is
seen from it and is open against its direction, and what leaves one node for another is matched, one
to one and at the same cost, by what enters the other from it. -/
theorem view_lists_both_ends (hg : g.Built) {snaps final : Array (Snap K)}
    (hsnaps : Splicing.OnRoads g snaps) (hbuild : Overlay.build g snaps = (.ok o, final))
    (hcontract : contract g w₀ = .ok h) (calls : List (Nat × MarkCall K)) (k : Nat)
    (hmake : make h.routing ((run calls (start g o)).graph k) w.toWeighting = .ok v) :
    v.ListsBothEnds h := by
  have hwf := hg.wellFormed
  have ho := Overlay.build_fresh hbuild
  obtain ⟨cs, hs, -⟩ := Overlay.spliced_of_build hwf hsnaps hbuild
  obtain ⟨m, -, hq, hmarks⟩ := exists_paired_marks (g := g) ho calls
  have hr := ranked_of_contract hwf hcontract
  have hw := woven_of_contract hcontract
  have hv := made_of_make hmake
  have hout : ∀ x, v.outEdges x = v.openPieces true (o.placesAt x) ++ o.kept x (h.outEdges x) := by
    intro x
    unfold HierarchyView.outEdges
    rw [hv.edgesAt_withMarks hq, hv.below]
    rfl
  have hin : ∀ y, v.inEdges y = v.openPieces false (o.placesAt y) ++ o.kept y (h.inEdges y) := by
    intro y
    unfold HierarchyView.inEdges
    rw [hv.edgesAt_withMarks hq, hv.below]
    rfl
  refine ⟨fun x e he => ?out, fun y e he => ?inc, fun x y => ?matched⟩
  case out =>
    rw [hout, List.mem_append] at he
    obtain he | he := he
    · exact hv.openPieces_open hq hs hwf he
    · obtain ⟨-, hbase, -, hopen⟩ := hr.outEdges_open (Overlay.mem_of_mem_kept he)
      exact ⟨hbase, hopen⟩
  case inc =>
    rw [hin, List.mem_append] at he
    obtain he | he := he
    · exact hv.openPieces_open hq hs hwf he
    · obtain ⟨hbase, hturned⟩ := hr.inEdges_open (Overlay.mem_of_mem_kept he)
      exact ⟨hbase, (hr.outEdges_open hturned).2.2.2⟩
  case matched =>
    obtain ⟨pieces, hperm, hpieces⟩ := hv.openPieces_matched hq hs hwf ho.linked hmarks h x y
    rw [hout, hin, List.filter_append, List.filter_append, ← hr.kept_matched hw hs]
    refine ⟨_, hperm.append_right _, List.rel_append hpieces ?_⟩
    -- A road or shortcut is matched by itself turned round.
    rw [List.forall₂_map_right_iff, List.forall₂_same]
    intro e he
    obtain ⟨htable, -⟩ :=
      hr.outEdges_open (Overlay.mem_of_mem_kept (List.mem_of_mem_filter he))
    exact ⟨rfl, rfl, rfl, rfl, rfl, .inl ⟨htable, rfl⟩⟩

open SharedGraphs in
/-- A road that is cut twice, with a mark on the first piece: what leaves a node and what enters it
tell of the same arcs. -/
theorem view_lists_both_ends_cutRoad :
    ∃ o final h v,
      let g := Splicing.cutRoad SpeedWeighting.openWord
      let w := SpeedWeighting.carWithoutTurns
      let calls := [(0, MarkCall.edges [o.firstEdge])]
      (g.Built ∧ Splicing.OnRoads g Splicing.cutSnaps ∧
        Overlay.build g Splicing.cutSnaps = (.ok o, final) ∧ contract g w.toWeighting = .ok h ∧
        make h.routing ((run calls (start g o)).graph 0) w.toWeighting = .ok v) ∧
      v.ListsBothEnds h := by
  have hbuilt := Splicing.built_cutRoad SpeedWeighting.openWord
  have hsnaps := Splicing.onRoads_cutRoad SpeedWeighting.openWord
  obtain ⟨o, final, hbuild, hspliced⟩ := Splicing.build_cutRoad SpeedWeighting.openWord
  obtain ⟨h, hcontract, hc⟩ := contract_spec hbuilt.wellFormed
    (nonnegDistances_cutRoad SpeedWeighting.openWord) SpeedWeighting.carWithoutTurns
  obtain ⟨m, hbase, hoverlay, -⟩ := exists_paired_marks
    (g := Splicing.cutRoad SpeedWeighting.openWord) (Overlay.build_fresh hbuild)
    [(0, MarkCall.edges [o.firstEdge])]
  have hfits := fits_cutRoad hspliced hcontract
  obtain ⟨v, hmake⟩ : ∃ v, make h.routing ((run [(0, MarkCall.edges [o.firstEdge])]
      (start (Splicing.cutRoad SpeedWeighting.openWord) o)).graph 0)
      SpeedWeighting.carWithoutTurns.toWeighting = .ok v := by
    rw [exists_make_iff]
    unfold graph
    rw [hbase, hoverlay]
    exact ⟨hc.edgeCount_le, hfits⟩
  exact ⟨o, final, h, v, ⟨hbuilt, hsnaps, hbuild, hcontract, hmake⟩,
    view_lists_both_ends hbuilt hsnaps hbuild hcontract _ 0 hmake⟩

/-- The pieces of a real node lead to virtual nodes. -/
theorem HierarchyView.Made.virtual_of_openPieces {w : Weighting K}
    (hv : v.Made r (QueryGraph.ofOverlay g o) w) (hs : Overlay.Fastened g o cs)
    (hn : o.isVirtualNode n = false) {forward : Bool}
    (he : e ∈ v.openPieces forward (o.placesAt n)) : o.isVirtualNode e.adj = true := by
  obtain ⟨i, hi, hpiece⟩ := List.mem_filterMap.1 (List.mem_of_mem_filter he)
  obtain ⟨c, hc, j, part, back, hpart, rfl, hbase⟩ :=
    (hs.endPlace_iff hn).1 ((hs.mem_placesAt_real hn).1 hi)
  rw [hv.piece, hs.pieceView_place hc hpart back] at hpiece
  obtain rfl := Option.some.inj hpiece
  refine (hs.virtual_end ⟨c, hc, j, part, back, hpart, rfl⟩).resolve_left ?_
  rw [hbase, hn]
  exact Bool.false_ne_true

/-- The road of a graph with one road, from its far end. -/
theorem open_cutRoad : Open (roadTable (Splicing.cutRoad SpeedWeighting.openWord)
    SpeedWeighting.carWithoutTurns.toWeighting) (roadEdge SpeedWeighting.carWithoutTurns.toWeighting
      ((Splicing.cutRoad SpeedWeighting.openWord).view RoadGraph.onlyRoad.reversed)) := by
  have hdir : (Splicing.cutRoad SpeedWeighting.openWord).HasDirection RoadGraph.onlyRoad.reversed :=
    (RoadGraph.hasDirection_onlyRoad _ _ _ _ _).reversed
  have hne : RoadGraph.onlyRoad.reversed.base ≠ RoadGraph.onlyRoad.reversed.adj := Nat.one_ne_zero
  refine open_roadTable.2 ⟨_, hdir.offers hne, hne, ?_, rfl⟩
  refine SpeedWeighting.isReal_edgeWeight_open (word_cutRoad _) ?_ false
  obtain ⟨x, -, hlength⟩ := Splicing.levelLength_real 0 (.inl rfl) (.inr rfl)
  refine ⟨x, ?_⟩
  unfold RoadGraph.view Splicing.cutRoad Splicing.levelRoad
  rw [(RoadGraph.oneRoad_eq _ _ _ _ _).2.1]
  exact hlength

/-- **A road that is cut under a wrong name** is withdrawn at one end only: it still leaves the other
end, but enters the first one no more. -/
theorem view_misses_end :
    ∃ o final h v,
      let g := Splicing.cutRoad SpeedWeighting.openWord
      let w := SpeedWeighting.carWithoutTurns
      (g.Built ∧ Overlay.build g #[Splicing.misnamed] = (.ok o, final) ∧
        contract g w.toWeighting = .ok h ∧
        make h.routing (QueryGraph.ofOverlay g o) w.toWeighting = .ok v) ∧
      ¬ v.ListsBothEnds h := by
  have hbuilt := Splicing.built_cutRoad SpeedWeighting.openWord
  have hnodes : (Splicing.cutRoad SpeedWeighting.openWord).nodeCount = 2 :=
    RoadGraph.nodeCount_oneRoad _ _ _ _ _
  obtain ⟨o, final, c, hbuild, hs, hroad, hfew⟩ := Splicing.build_misnamed SpeedWeighting.openWord
  obtain ⟨h, hcontract, hc⟩ := contract_spec hbuilt.wellFormed
    (nonnegDistances_cutRoad SpeedWeighting.openWord) SpeedWeighting.carWithoutTurns
  have hmake := HierarchyView.make_eq hc (few_fit_cutRoad hc hs.laid.slots_size hfew)
  refine ⟨o, final, h, _, ⟨hbuilt, hbuild, hcontract, hmake⟩, fun hlists => ?_⟩
  have hv := made_of_make hmake
  generalize HierarchyView.over _ o _ h = v at hv hlists
  have hroads : (Splicing.cutRoad SpeedWeighting.openWord).roads.size = 1 :=
    Splicing.edgeCount_cutRoad _
  have hreal : ∀ n : NodeId, n < 2 → o.isVirtualNode n = false := fun n hn =>
    hs.isVirtualNode_of_lt (hnodes ▸ hn)
  have hq : (QueryGraph.ofOverlay (Splicing.cutRoad SpeedWeighting.openWord) o).overlay =
      o.withMarks fun _ => false := (Overlay.build_fresh hbuild).unmarked.symm
  have hhides : ∀ n : NodeId, o.hides n 0 = true ↔ 0 = n := by
    intro n
    rw [hs.hides_iff]
    simp [hroad, Splicing.onlyRoadBack]
  have hkeeps : o.hides 1 0 = false := by
    rw [← Bool.not_eq_true, hhides]
    decide
  -- The far end keeps the road.
  have hkept : roadEdge SpeedWeighting.carWithoutTurns.toWeighting
      ((Splicing.cutRoad SpeedWeighting.openWord).view RoadGraph.onlyRoad.reversed) ∈
        (v.outEdges 1).filter fun e => e.adj = 0 := by
    have hopen := hc.mem_outEdges.2 ⟨(edges_cutRoad hc).symm ▸ open_cutRoad, rfl⟩
    refine List.mem_filter.2 ⟨?_, rfl⟩
    unfold HierarchyView.outEdges
    rw [hv.edgesAt_withMarks hq, hv.below, List.mem_append, Overlay.kept, hreal 1 (by decide)]
    refine .inr (List.mem_filter.2 ⟨hopen, ?_⟩)
    show (!o.hides 1 0) = true
    simp [hkeeps]
  -- The near end lists pieces only.
  have hlost : (v.inEdges 0).filter (fun e => e.adj = 1) = [] := by
    refine List.filter_eq_nil_iff.2 fun e he hadj => ?_
    obtain hadj : e.adj = 1 := of_decide_eq_true hadj
    unfold HierarchyView.inEdges at he
    rw [hv.edgesAt_withMarks hq, hv.below, List.mem_append, Overlay.kept, hreal 0 (by decide)] at he
    obtain he | he := he
    · have hvirtual := hv.virtual_of_openPieces hs (hreal 0 (by decide)) he
      rw [hadj, hreal 1 (by decide)] at hvirtual
      cases hvirtual
    · obtain ⟨he, hall⟩ := List.mem_filter.1 he
      obtain ⟨hopen, -⟩ := hc.mem_inEdges.1 he
      rw [edges_cutRoad hc] at hopen
      obtain ⟨d, ⟨⟨r, hr, -⟩, -⟩, -, -, heq⟩ := open_roadTable.1 hopen
      have hroad : e.underlying = some d.edge := congrArg underlying heq
      have hedge : d.edge = 0 := Nat.lt_one_iff.1 (hroads ▸ (Array.getElem?_eq_some_iff.1 hr).1)
      rw [hroad, hedge] at hall
      simp [(hhides 0).2 rfl] at hall
  obtain ⟨partners, hperm, hall⟩ := hlists.matched 1 0
  rw [hlost] at hperm
  obtain rfl := hperm.eq_nil
  rw [List.forall₂_nil_right_iff] at hall
  rw [hall] at hkept
  cases hkept

end RoadSplice

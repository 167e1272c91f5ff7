/-
  RoadSplice.Proofs.Itinerary.Legs — the legs of a journey, one after the other.

  All legs are routed on one query graph, whose marks lie in an overlay that all of them share.
  Before a leg the marks of the leg before it are taken back; since nothing but this graph marks
  the overlay, what remains is the graph as it was opened.  So a leg passes on no more than the edge
  on which it arrives, and if that edge is virtual, it ends at the node where the next leg begins.
-/
import RoadSplice.Itinerary.Trip
import RoadSplice.Proofs.Fixture.Built
import RoadSplice.Proofs.Itinerary.Continuity
import RoadSplice.Proofs.Query.Headings
import RoadSplice.Proofs.Query.Tracking

namespace RoadSplice

variable {K : Type} [Scalar K] {g : RoadGraph K} {o : Overlay K} {q q' : QueryGraph K}

open QueryGraph (InStep ofOverlay)

/-! ## §1. Calls on a graph without marks. -/

omit [Scalar K] in
/-- **Taking back all marks** leaves the graph as it was opened. -/
theorem QueryGraph.InStep.clearMarks (ho : o.Fresh) (h : InStep g o q) :
    q.clearMarks = ofOverlay g o := by
  obtain ⟨t, rfl, -⟩ := h
  rw [clearMarks_marking, ofOverlay_eq_marking ho]
  congr 1
  funext i
  exact Bool.and_not_self _

/-- A call that succeeds hands back the graph after it. -/
theorem MarkCall.after_of_result {c : MarkCall K} {b : Bool} (h : c.result q = .ok (q', b)) :
    c.after q = q' := by
  rw [c.result_eq] at h
  cases hanswer : c.answer q with
  | error e =>
    rw [hanswer] at h
    cases h
  | ok a =>
    rw [hanswer] at h
    exact congrArg Prod.fst (Except.ok.inj h)

/-- **An edge ends at a node**, at either end, if it is virtual. -/
def Overlay.EndsAt (o : Overlay K) (e : EdgeId) (n : NodeId) : Prop :=
  ∀ i, o.index? e = some i → ∃ p, o.piece? i = some p ∧ (p.adj = n ∨ p.base = n)

/-- What leads to a node ends there. -/
theorem QueryGraph.Sound.endsAt (h : q.Sound) {n : NodeId} {v : EdgeView K} (hv : v ∈ q.edges n) :
    q.overlay.EndsAt v.edge v.adj := by
  intro i hi
  have hedge := h.edge_of_mem hv
  unfold QueryGraph.edge at hedge
  simp only [hi] at hedge
  cases hp : q.overlay.piece? i with
  | none => simp [hp] at hedge
  | some p =>
    refine ⟨p, rfl, ?_⟩
    simp only [hp] at hedge
    split at hedge
    · rename_i hadj
      exact .inl hadj
    · split at hedge
      · rename_i hbase
        exact .inr hbase
      · cases hedge

omit [Scalar K] in
/-- Marks move no ends. -/
theorem QueryGraph.InStep.endsAt (h : InStep g o q) {e : EdgeId} {n : NodeId}
    (hends : q.overlay.EndsAt e n) : o.EndsAt e n := by
  obtain ⟨t, rfl, -⟩ := h
  intro i hi
  obtain ⟨p', hp', hat⟩ := hends i hi
  have hp' : (o.withMarks _).piece? i = some p' := hp'
  rw [Overlay.piece?_withMarks] at hp'
  obtain ⟨p, hp, rfl⟩ := Option.map_eq_some_iff.1 hp'
  exact ⟨p, hp, hat⟩

omit [Scalar K] in
/-- **A single request succeeds** for a virtual edge at a virtual node where it ends. -/
theorem exists_unfavorPair (hcount : o.firstNode = g.nodeCount) {node : NodeId} {e : EdgeId}
    (hnode : o.isVirtualNode node = true) (hedge : o.isVirtualEdge e = true)
    (hends : o.EndsAt e node) : ∃ q', (ofOverlay g o).unfavorPair node e = .ok q' := by
  obtain ⟨i, hi⟩ := Option.isSome_iff_exists.1 hedge
  obtain ⟨p, hp, hat⟩ := hends i hi
  have hlt : ¬ (ofOverlay g o).nodeCount ≤ node := by
    obtain ⟨m, hm, rfl⟩ := Overlay.exists_of_isVirtualNode hnode
    rw [hcount]
    exact Nat.not_le.2 (Nat.add_lt_add_left hm _)
  have hcheck : (ofOverlay g o).checkNode node = .ok () := by
    unfold QueryGraph.checkNode
    rw [if_neg hlt]
  have hnode' : (ofOverlay g o).isVirtualNode node = true := hnode
  have hi' : (ofOverlay g o).overlay.index? e = some i := hi
  -- One of the two pieces of a pair arrives at each of its ends.
  have harriving : ∃ j, QueryGraph.arriving? (ofOverlay g o).overlay node i = some j := by
    have hp' : (ofOverlay g o).overlay.piece? i = some p := hp
    unfold QueryGraph.arriving?
    rw [hp', Option.bind_some]
    split
    · exact ⟨i, rfl⟩
    · rename_i hne
      exact ⟨p.pair, if_pos (hat.resolve_left hne)⟩
  obtain ⟨j, hj⟩ := harriving
  refine ⟨(ofOverlay g o).mark j, ?_⟩
  unfold QueryGraph.unfavorPair
  rw [hcheck]
  simp only [hnode', hi', hj]
  rfl

/-! ## §2. The marks of a leg. -/

namespace Trip

variable {t : Trip K} {w : Weighting K} {h : Option (RoutingHierarchy K)} {leg : Nat}
  {source : NodeId}

/-- The edge on which a path arrives, if there is a path and it has edges. -/
def arrival (path : Option (Path K)) : Option EdgeId := path.bind (·.edges.getLast?)

/-- **The marks that a leg is to have**, as calls on a graph without marks: on the first leg the
wanted heading; on a later one, if turning back is to be avoided, the pair of the edge on which the
leg before arrives, if that edge and the node are virtual. -/
def markCalls (t : Trip K) (o : Overlay K) (leg : Nat) (source : NodeId)
    (arrival : Option EdgeId) : List (MarkCall K) :=
  match leg with
  | 0 => t.heading.toList.map fun heading => .heading source heading false
  | _ + 1 =>
    match t.passThrough, arrival with
    | true, some e =>
      if o.isVirtualNode source && o.isVirtualEdge e then [.pair source e] else []
    | _, _ => []

/-- A call on its own. -/
theorem afterAll_of_result {c : MarkCall K} {b : Bool} (h : c.result q = .ok (q', b)) :
    MarkCall.afterAll [c] q = q' := MarkCall.after_of_result h

theorem markLeg_first (ho : o.Fresh) (hq : InStep g o q) {previous : Option (Path K)}
    {e : Option EdgeId} (hmark : t.markLeg q 0 source previous = .ok q') :
    MarkCall.afterAll (t.markCalls o 0 source e) (ofOverlay g o) = q' := by
  unfold markLeg at hmark
  simp only [hq.clearMarks ho, if_true] at hmark
  unfold markCalls
  cases hheading : t.heading with
  | none =>
    rw [hheading] at hmark
    exact Except.ok.inj hmark
  | some heading =>
    simp only [hheading] at hmark
    obtain ⟨⟨q₁, found⟩, hrun, rfl⟩ := except_map.1 hmark
    exact afterAll_of_result (c := .heading source heading false) hrun

theorem markLeg_later (ho : o.Fresh) (hq : InStep g o q) {previous : Option (Path K)}
    (hmark : t.markLeg q (leg + 1) source previous = .ok q') :
    MarkCall.afterAll (t.markCalls o (leg + 1) source (arrival previous)) (ofOverlay g o) = q' := by
  unfold markLeg at hmark
  simp only [hq.clearMarks ho, Nat.add_one_ne_zero, if_false] at hmark
  unfold markCalls arrival
  cases hpass : t.passThrough with
  | false =>
    rw [hpass] at hmark
    exact Except.ok.inj hmark
  | true =>
    cases harrival : previous.bind (·.edges.getLast?) with
    | none =>
      rw [hpass, harrival] at hmark
      exact Except.ok.inj hmark
    | some e =>
      simp only [hpass, harrival] at hmark ⊢
      by_cases hvirtual : (o.isVirtualNode source && o.isVirtualEdge e) = true
      · rw [if_pos hvirtual]
        rw [if_pos (by exact hvirtual)] at hmark
        refine afterAll_of_result (c := .pair source e) (b := true) ?_
        rw [MarkCall.result, hmark]
        rfl
      · rw [if_neg hvirtual]
        rw [if_neg (by exact hvirtual)] at hmark
        exact Except.ok.inj hmark

/-- Marking a leg, from what the leg before leaves behind. -/
theorem markLeg_eq (ho : o.Fresh) (hq : InStep g o q) {previous : Option (Path K)}
    (hmark : t.markLeg q leg source previous = .ok q') :
    q' = MarkCall.afterAll (t.markCalls o leg source (arrival previous)) (ofOverlay g o) := by
  cases leg with
  | zero => exact (markLeg_first ho hq hmark).symm
  | succ leg => exact (markLeg_later ho hq hmark).symm

/-- Marking a leg leaves a graph in use. -/
theorem opened_of_markLeg (hq : q.Opened) {previous : Option (Path K)}
    (hmark : t.markLeg q leg source previous = .ok q') : q'.Opened := by
  unfold markLeg at hmark
  dsimp only at hmark
  split at hmark
  · split at hmark
    · obtain ⟨⟨q₁, found⟩, hrun, rfl⟩ := except_map.1 hmark
      exact hq.clearMarks.enforceHeading hrun
    · exact Except.ok.inj hmark ▸ hq.clearMarks
  · split at hmark
    · split at hmark
      · exact hq.clearMarks.unfavorPair hmark
      · exact Except.ok.inj hmark ▸ hq.clearMarks
    · exact Except.ok.inj hmark ▸ hq.clearMarks

/-! ## §3. One leg. -/

/-- What a leg yields: its path, its entry and its shape. -/
abbrev Outcome (K : Type) := Path K × Leg K × Polyline K

/-- **A leg routed alone**: on a graph that has just been opened on the overlay, with no marks but
those of the leg. -/
def routeAlone (t : Trip K) (g : RoadGraph K) (s : Preparation K) (leg : Nat)
    (arrival : Option EdgeId) (source target : NodeId) :
    Except (Error K) (Option (Outcome K)) :=
  routeLeg (MarkCall.afterAll (t.markCalls s.overlay leg source arrival) (ofOverlay g s.overlay))
    s.weighting s.hierarchy source target

/-- **A journey between two legs**: its graph is in use, marks and list agree, and the last leg has
arrived where the next one begins. -/
structure Progress.InOrder (g : RoadGraph K) (o : Overlay K) (here : NodeId) (p : Progress K) :
    Prop where
  opened : p.query.Opened
  inStep : InStep g o p.query
  arrived : ∀ e, arrival p.previous = some e → o.EndsAt e here

/-- The path of a leg is one that the search has found. -/
theorem dijkstra_of_routeLeg {target : NodeId} {out : Outcome K}
    (hroute : routeLeg q w h source target = .ok (some out)) :
    dijkstra q (QueryGraph.wrap q.overlay w) source target = some out.1 := by
  unfold routeLeg at hroute
  split at hroute
  · cases hroute
  · rename_i path hpath
    rw [hpath]
    cases h <;>
    · obtain ⟨crossWeight, -, hroute⟩ := except_bind.1 hroute
      obtain ⟨shape, -, hroute⟩ := except_bind.1 hroute
      obtain rfl := Option.some.inj (Except.ok.inj hroute)
      rfl

/-- **A leg can be routed** without a hierarchy, if a path is found on a graph whose edges span
their nodes. -/
theorem exists_routeLeg (hq : q.Spanning) (hsource : source < q.nodeCount) {target : NodeId}
    {path : Path K} (hpath : dijkstra q (QueryGraph.wrap q.overlay w) source target = some path) :
    ∃ out, routeLeg q w none source target = .ok (some out) := by
  have hspans : (Layered.spliced q).Spanning := .spliced hq
  obtain ⟨vs, hfollows⟩ := exists_follows (fun n v hv => hq.base_of_mem hv) hpath
  have hhops := hfollows.hops fun n v hv => hspans.routeHop_of_mem hv
  obtain ⟨a, ha⟩ := hspans.exists_coordinate hsource
  obtain ⟨shapes, line, hline⟩ :=
    hhops.continuous (fun x hx => hx.elim hq.spanned_road hq.spanned_piece) ha
  unfold routeLeg
  rw [hpath]
  show ∃ out, (do
    let shape ← path.geometry q
    return some (path, _, shape)) = Except.ok (some out)
  rw [hline.geometry_eq]
  exact ⟨_, rfl⟩

/-- **One leg** is what it is alone, and leaves the journey in order. -/
theorem advance_inv {s : Preparation K} (ho : s.overlay.Fresh) {p p' : Progress K}
    {source target : Visit K} (hp : p.InOrder g s.overlay source.2)
    (h : t.advance s.weighting s.hierarchy p leg source target = .ok p') :
    ∃ out : Outcome K,
      t.routeAlone g s leg (arrival p.previous) source.2 target.2 = .ok (some out) ∧
      p'.itinerary = p.itinerary.push out.2.1 out.2.2 ∧ p'.previous = some out.1 ∧
      p'.InOrder g s.overlay target.2 := by
  unfold advance at h
  obtain ⟨q, hmark, h⟩ := except_bind.1 h
  obtain ⟨out, hroute, h⟩ := except_bind.1 h
  have hmark := mapError_eq_ok hmark
  have hroute := mapError_eq_ok hroute
  cases out with
  | none => cases h
  | some out =>
    obtain rfl := Except.ok.inj h
    have heq := markLeg_eq ho hp.inStep hmark
    have hinStep : InStep g s.overlay q :=
      heq ▸ (QueryGraph.inStep_ofOverlay ho).afterAll ho _
    have hopened := opened_of_markLeg hp.opened hmark
    refine ⟨out, by rw [routeAlone, ← heq, hroute], rfl, rfl, hopened, hinStep, fun e he => ?_⟩
    -- The last edge of a path leads to its target.
    obtain ⟨vs, hfollows⟩ := exists_follows (fun n v hv => hopened.sound.base_of_mem hv)
      (dijkstra_of_routeLeg hroute)
    obtain ⟨v, hv, hadj, rfl⟩ := hfollows.getLast he
    exact hadj ▸ hinStep.endsAt (hopened.sound.endsAt hv)

/-- **A leg that ends at a virtual node** arrives there on a piece, so that the next leg is to be
marked against turning back on it. -/
theorem exists_markCalls_pair (hopened : (ofOverlay g o).Sound) (hinStep : InStep g o q)
    (hpass : t.passThrough = true) {target : NodeId} (hne : source ≠ target)
    (hvirtual : o.isVirtualNode target = true) {out : Outcome K}
    (hroute : routeLeg q w h source target = .ok (some out)) (leg : Nat) :
    ∃ e, o.isVirtualEdge e = true ∧
      t.markCalls o (leg + 1) target (arrival (some out.1)) = [.pair target e] := by
  obtain ⟨tracked, rfl, -⟩ := hinStep
  have hsound := hopened.remarked (fun i => tracked.contains i) tracked
  obtain ⟨vs, hfollows⟩ := exists_follows (fun n v hv => hsound.base_of_mem hv)
    (dijkstra_of_routeLeg hroute)
  cases hlast : out.1.edges.getLast? with
  | none =>
    -- A path without edges stays where it is.
    rw [List.getLast?_eq_none_iff, hfollows.edges, List.map_eq_nil_iff] at hlast
    have hjoined := hfollows.joined
    rw [hlast] at hjoined
    exact absurd hjoined hne
  | some e =>
    obtain ⟨v, hv, rfl, rfl⟩ := hfollows.getLast hlast
    have hedge : o.isVirtualEdge v.edge = true := hsound.isVirtualEdge_of_mem hv hvirtual
    refine ⟨v.edge, hedge, ?_⟩
    rw [show arrival (some out.1) = some v.edge from hlast]
    unfold markCalls
    simp [hpass, hvirtual, hedge]

/-- **The request against turning back never fails**, nor does anything else that a later leg is to
be marked with. -/
theorem exists_markLeg_later (ho : o.Fresh) (hcount : o.firstNode = g.nodeCount) {p : Progress K}
    (hp : p.InOrder g o source) (t : Trip K) (leg : Nat) :
    ∃ q, t.markLeg p.query (leg + 1) source p.previous = .ok q := by
  unfold markLeg
  simp only [hp.inStep.clearMarks ho, Nat.add_one_ne_zero, if_false]
  split
  · rename_i e hpass harrival
    split
    · rename_i hvirtual
      obtain ⟨hnode, hedge⟩ := Bool.and_eq_true_iff.1 hvirtual
      exact exists_unfavorPair hcount hnode hedge (hp.arrived e harrival)
    · exact ⟨_, rfl⟩
  · exact ⟨_, rfl⟩

/-- **The first leg can be marked** at a virtual node, for an azimuth between 0 and 360 degrees. -/
theorem exists_markLeg_first {g : RoadGraph Exact} {o : Overlay Exact} {t : Trip Exact}
    (ho : o.Fresh) (hopened : (ofOverlay g o).Opened) (hnode : o.isVirtualNode source = true)
    {h : ℝ} (hheading : t.heading = some (.real h)) (h0 : 0 ≤ h) (h360 : h ≤ 360)
    (previous : Option (Path Exact)) :
    ∃ q, t.markLeg (ofOverlay g o) 0 source previous = .ok q := by
  obtain ⟨m, tracked, enforced, hrun, -⟩ :=
    QueryGraph.enforceHeading_marking hopened hnode h0 h360 false
  unfold markLeg
  simp only [(QueryGraph.inStep_ofOverlay ho).clearMarks ho, if_true, hheading, hrun]
  exact ⟨_, rfl⟩

/-! ## §4. All legs. -/

/-- The edge on which the leg before a leg arrives. -/
def arrivalBefore (outcomes : List (Outcome K)) : Nat → Option EdgeId
  | 0 => none
  | leg + 1 => arrival (outcomes[leg]?.map (·.1))

/-- **Legs that stand alone**: between two visits each, one after the other. -/
def StandAlone (t : Trip K) (g : RoadGraph K) (s : Preparation K)
    (outcomes : List (Outcome K)) : Prop :=
  ∀ leg out, outcomes[leg]? = some out → ∃ source target,
    s.visits[leg]? = some source ∧ s.visits[leg + 1]? = some target ∧
    t.routeAlone g s leg (arrivalBefore outcomes leg) source.2 target.2 = .ok (some out)

omit [Scalar K] in
/-- A leg hears of nothing behind it. -/
theorem arrivalBefore_concat {outcomes : List (Outcome K)} {leg : Nat}
    (hleg : leg ≤ outcomes.length) (out : Outcome K) :
    arrivalBefore (outcomes ++ [out]) leg = arrivalBefore outcomes leg := by
  cases leg with
  | zero => rfl
  | succ leg =>
    simp only [arrivalBefore, List.getElem?_append_left hleg]

/-- **One leg more** that stands alone. -/
theorem StandAlone.concat {s : Preparation K} {outcomes : List (Outcome K)}
    (h : t.StandAlone g s outcomes) {source target : Visit K} {out : Outcome K}
    (hsource : s.visits[outcomes.length]? = some source)
    (htarget : s.visits[outcomes.length + 1]? = some target)
    (hroute : t.routeAlone g s outcomes.length (arrivalBefore outcomes outcomes.length) source.2
      target.2 = .ok (some out)) : t.StandAlone g s (outcomes ++ [out]) := by
  intro leg out' hout
  rcases Nat.lt_or_ge leg outcomes.length with hlt | hge
  · rw [List.getElem?_append_left hlt] at hout
    rw [arrivalBefore_concat (Nat.le_of_lt hlt)]
    exact h leg out' hout
  · obtain ⟨rfl, rfl⟩ : leg = outcomes.length ∧ out = out' := by
      rw [List.getElem?_append_right hge, List.getElem?_singleton] at hout
      split at hout
      · exact ⟨by omega, Option.some.inj hout⟩
      · cases hout
    rw [arrivalBefore_concat (Nat.le_refl _)]
    exact ⟨source, target, hsource, htarget, hroute⟩

/-- The itinerary with the entries and shapes of some legs. -/
def pushAll (outcomes : List (Outcome K)) (it : Itinerary K) : Itinerary K :=
  outcomes.foldl (fun it out => it.push out.2.1 out.2.2) it

omit [Scalar K] in
/-- The first so many pairs of neighbours, each with its number. -/
theorem zipIdx_neighbours_take {α : Type} (as : List α) (n : Nat) :
    ((as.take (n + 1)).zip ((as.take (n + 1)).drop 1)).zipIdx =
      (as.zip (as.drop 1)).zipIdx.take n := by
  have hpairs : (as.take (n + 1)).zip ((as.take (n + 1)).drop 1) = (as.zip (as.drop 1)).take n := by
    induction as generalizing n with
    | nil => simp
    | cons a as ih =>
      cases n with
      | zero => simp
      | succ n => cases as <;> simp_all
  rw [hpairs]
  refine List.ext_getElem? fun i => ?_
  rw [List.getElem?_zipIdx, List.getElem?_take, List.getElem?_take, List.getElem?_zipIdx]
  split <;> rfl

/-- Between one visit and none there is no leg. -/
theorem legs_take_one (visits : List (Visit K)) (start : Progress K) :
    t.legs w h (visits.take 1) start = .ok start := by
  unfold legs
  rw [zipIdx_neighbours_take]
  rfl

/-- **One leg more** is routed when there is one more visit. -/
theorem legs_take_succ {visits : List (Visit K)} {n : Nat} (hn : n + 1 < visits.length)
    (start : Progress K) :
    t.legs w h (visits.take (n + 2)) start = (do
      let p ← t.legs w h (visits.take (n + 1)) start
      t.advance w h p n visits[n] visits[n + 1]) := by
  have hlt : n < (visits.zip (visits.drop 1)).zipIdx.length := by
    simp only [List.length_zipIdx, List.length_zip, List.length_drop]
    omega
  have hlast : (visits.zip (visits.drop 1)).zipIdx[n] = ((visits[n], visits[n + 1]), n) := by
    simp
  unfold legs
  rw [zipIdx_neighbours_take, zipIdx_neighbours_take, List.take_succ_eq_append_getElem hlt,
    List.foldlM_append, hlast]
  refine bind_congr fun p => ?_
  rw [List.foldlM_cons]
  exact bind_pure _

/-- **What a run of legs yields**: as many legs as there are pairs of visits, each standing alone;
and what is left behind is in order. -/
theorem legs_inv {s : Preparation K} (ho : s.overlay.Fresh) {start : Progress K}
    (hstart : ∀ here, start.InOrder g s.overlay here) (hnone : start.previous = none) {n : Nat}
    (hn : n < s.visits.length) {p : Progress K}
    (hrun : t.legs s.weighting s.hierarchy (s.visits.take (n + 1)) start = .ok p) :
    ∃ outcomes : List (Outcome K), outcomes.length = n ∧ t.StandAlone g s outcomes ∧
      p.itinerary = pushAll outcomes start.itinerary ∧
      arrival p.previous = arrivalBefore outcomes n ∧ p.InOrder g s.overlay s.visits[n].2 := by
  -- Induction on the number of legs, with one more leg at the end.
  induction n generalizing p with
  | zero =>
    obtain rfl := Except.ok.inj ((legs_take_one s.visits start).symm.trans hrun)
    refine ⟨[], rfl, fun leg out hout => ?_, rfl, by rw [hnone]; rfl, hstart _⟩
    simp at hout
  | succ n ih =>
    rw [legs_take_succ hn] at hrun
    obtain ⟨p₁, hrun₁, hadvance⟩ := except_bind.1 hrun
    obtain ⟨outcomes, hlength, halone, hitinerary, harrival, horder⟩ := ih (by omega) hrun₁
    obtain ⟨out, hroute, hpush, hprevious, horder'⟩ := advance_inv ho horder hadvance
    subst hlength
    refine ⟨outcomes ++ [out], by simp, halone.concat (List.getElem?_eq_getElem _)
      (List.getElem?_eq_getElem hn) (harrival ▸ hroute), ?_, ?_, horder'⟩
    · rw [hpush, hitinerary, pushAll, pushAll, List.foldl_concat]
    · rw [hprevious]
      simp [arrivalBefore]

/-- **All legs can be routed**, if the first one can be marked and each can be routed on every graph
whose marks and list agree. -/
theorem exists_legs {s : Preparation K} (ho : s.overlay.Fresh)
    (hcount : s.overlay.firstNode = g.nodeCount) {start : Progress K}
    (hstart : ∀ here, start.InOrder g s.overlay here) (hnone : start.previous = none)
    (hfirst : ∀ source, s.visits[0]? = some source →
      ∃ q, t.markLeg start.query 0 source.2 none = .ok q)
    (hroute : ∀ (n : Nat) source target q, s.visits[n]? = some source →
      s.visits[n + 1]? = some target → InStep g s.overlay q →
        ∃ out, routeLeg q s.weighting s.hierarchy source.2 target.2 = .ok (some out))
    {n : Nat} (hn : n < s.visits.length) :
    ∃ p, t.legs s.weighting s.hierarchy (s.visits.take (n + 1)) start = .ok p := by
  induction n with
  | zero => exact ⟨start, legs_take_one s.visits start⟩
  | succ n ih =>
    have hlt : n < s.visits.length := Nat.lt_of_succ_lt hn
    obtain ⟨p, hrun⟩ := ih hlt
    obtain ⟨-, -, -, -, -, horder⟩ := legs_inv ho hstart hnone hlt hrun
    -- Only the first leg has a heading to enforce.
    have hmarked : ∃ q, t.markLeg p.query n s.visits[n].2 p.previous = .ok q := by
      cases n with
      | zero =>
        obtain rfl := Except.ok.inj ((legs_take_one s.visits start).symm.trans hrun)
        rw [hnone]
        exact hfirst _ (List.getElem?_eq_getElem hlt)
      | succ n => exact exists_markLeg_later ho hcount horder t n
    obtain ⟨q, hmark⟩ := hmarked
    have hinStep : InStep g s.overlay q := markLeg_eq ho horder.inStep hmark ▸
      (QueryGraph.inStep_ofOverlay ho).afterAll ho _
    obtain ⟨out, hout⟩ :=
      hroute n _ _ q (List.getElem?_eq_getElem hlt) (List.getElem?_eq_getElem hn) hinStep
    rw [legs_take_succ hn, hrun]
    show ∃ p', t.advance s.weighting s.hierarchy p n s.visits[n] s.visits[n + 1] = .ok p'
    unfold advance
    rw [hmark]
    show ∃ p', ((routeLeg q s.weighting s.hierarchy s.visits[n].2 s.visits[n + 1].2).mapError
      TripError.other >>= _) = Except.ok p'
    rw [hout]
    exact ⟨_, rfl⟩

/-! ## §5. Journeys. -/

/-- **What is settled before the first leg**: a built overlay, and one visit for each place. -/
theorem prepare_inv {car : VehicleEncoding K} {s : Preparation K}
    (h : t.prepare g car = .ok s) :
    (∃ snaps final, Overlay.build g snaps = (.ok s.overlay, final)) ∧
      s.visits.map (·.1) = t.places := by
  unfold prepare at h
  obtain ⟨found, hfound, h⟩ := except_bind.1 h
  cases hbuild : Overlay.build g found.toArray with
  | mk result final =>
    simp only [hbuild] at h
    obtain ⟨o, hresult, hrest⟩ := except_bind.1 h
    have hresult := mapError_eq_ok hresult
    subst hresult
    -- Building keeps the number of snaps, so every place has a node.
    have hsize : final.size = found.length := by
      obtain ⟨_, _, _, _, hsteps⟩ := Splicing.exists_buildSteps hbuild
      exact hsteps.size_eq
    have hplaces := (mapM_eq_ok.1 hfound).length_eq
    have hnodes : ∀ nodes, (final.toList.map (·.measured)).mapM nodeOf = .ok nodes →
        (t.places.zip nodes).map (·.1) = t.places := fun nodes hnodes => by
      have hvisits := (mapM_eq_ok.1 hnodes).length_eq
      rw [List.length_map, Array.length_toList] at hvisits
      exact List.map_fst_zip (by omega)
    split at hrest <;>
    · obtain ⟨_, -, hrest⟩ := except_bind.1 hrest
      obtain ⟨nodes, hmapM, hrest⟩ := except_bind.1 hrest
      obtain rfl := Except.ok.inj hrest
      exact ⟨⟨found.toArray, final, hbuild⟩, hnodes nodes hmapM⟩

/-- Before the first leg everything is in order. -/
theorem Preparation.inOrder_start {f : Fixture K} {car : VehicleEncoding K} {s : Preparation K}
    (hbuild : f.build = .ok (g, car)) (hprepare : t.prepare g car = .ok s) (here : NodeId) :
    (s.start g).InOrder g s.overlay here := by
  obtain ⟨⟨snaps, final, hoverlay⟩, -⟩ := prepare_inv hprepare
  exact ⟨.ofBuild (Fixture.built hbuild) hoverlay,
    QueryGraph.inStep_ofOverlay (Overlay.build_fresh hoverlay), fun e he => by cases he⟩

/-- **An itinerary** lists legs that stand alone, one for each pair of neighbouring places. -/
theorem plan_inv {f : Fixture K} {car : VehicleEncoding K} {s : Preparation K}
    (hbuild : f.build = .ok (g, car)) (hprepare : t.prepare g car = .ok s) {it : Itinerary K}
    (hplan : t.plan g car = .ok it) : ∃ outcomes : List (Outcome K),
      outcomes.length = t.places.length - 1 ∧ t.StandAlone g s outcomes ∧
      it = pushAll outcomes (Itinerary.start s.stops) := by
  obtain ⟨⟨snaps, final, hoverlay⟩, hvisits⟩ := prepare_inv hprepare
  unfold plan at hplan
  rw [hprepare] at hplan
  obtain ⟨p, hrun, hplan⟩ := except_bind.1 (show t.legs _ _ _ _ >>= _ = .ok it from hplan)
  obtain rfl := Except.ok.inj hplan
  -- Without a place to visit there is no leg.
  cases hempty : s.visits with
  | nil =>
    rw [hempty] at hrun hvisits
    obtain rfl := Except.ok.inj (show Except.ok _ = Except.ok p from hrun)
    refine ⟨[], by rw [← hvisits]; rfl, fun leg out hout => ?_, rfl⟩
    simp at hout
  | cons first rest =>
    have hlength : s.visits.length = rest.length + 1 := by rw [hempty]; rfl
    rw [← List.take_of_length_le (Nat.le_of_eq hlength)] at hrun
    obtain ⟨outcomes, hlegs, halone, hitinerary, -, -⟩ :=
      legs_inv (Overlay.build_fresh hoverlay) (Preparation.inOrder_start hbuild hprepare) rfl
        (by omega) hrun
    refine ⟨outcomes, ?_, halone, hitinerary⟩
    rw [hlegs, ← hvisits, List.length_map, hlength, Nat.add_sub_cancel]

end Trip

end RoadSplice

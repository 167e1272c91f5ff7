/-
  RoadSplice.Proofs.Query.MarkCalls — what headings and single requests do to the marks.

  A call reads no mark: which pieces it marks, and what it answers, depends on the tables of the
  overlay alone.  So its effect is a list of places, closed under pairing, that are marked one after
  the other; and a call that fails does so before the first mark.  To say the latter, calls are
  written once more as work that hands back the graph also when it fails.
-/
import RoadSplice.Proofs.Query.Marks

namespace RoadSplice

variable {K : Type}

/-! ## §1. Calls, with the graph that they leave behind. -/

/-- A change of the marks of a graph.  The graph comes back also when the change fails. -/
abbrev Marking (K α : Type) := ExceptT (Error K) (StateM (QueryGraph K)) α

namespace Marking

open QueryGraph

variable [Scalar K]

/-- A result that does not touch the graph. -/
def settled {α : Type} (r : Except (Error K) α) : Marking K α := ExceptT.mk (pure r)

/-- Marks the piece in a slot if it deviates, and tells whether it does. -/
def enforceSlot (node : NodeId) (favored : K) (incoming : Bool) (slot : Slot) : Marking K Bool := do
  let q ← get
  let some index := q.overlay.slotOf? node slot | throw .outOfRange
  let some piece := q.overlay.piece? index | throw .outOfRange
  if deviates favored incoming piece.shape then
    set (q.mark index)
    return true
  else return false

/-- Enforces a heading at a node, slot by slot. -/
def enforceHeading (node : NodeId) (heading : K) (incoming : Bool) : Marking K Bool := do
  let q ← get
  settled (q.checkNode node)
  if Scalar.isNaN heading || !q.isVirtualNode node then return false
  if !Scalar.within 0 360 heading then throw (.invalidHeading heading)
  (headingSlots incoming).foldlM
    (fun enforced slot => do
      let found ← enforceSlot node (Geo.ofAzimuth heading) incoming slot
      return enforced || found)
    false

/-- Marks the piece of an edge at a virtual node, and its pair. -/
def unfavorPair (node : NodeId) (edge : EdgeId) : Marking K Unit := do
  let q ← get
  settled (q.checkNode node)
  if !q.isVirtualNode node then throw (.notVirtualNode node)
  let some index := q.overlay.index? edge | throw (.notVirtualEdge edge)
  let some arriving := arriving? q.overlay node index | throw (.edgeNotAdjacent edge node)
  set (q.mark arriving)

end Marking

/-- **A call that changes marks.** -/
inductive MarkCall (K : Type) where
  | heading (node : NodeId) (heading : K) (incoming : Bool)
  | pair (node : NodeId) (edge : EdgeId)
  | edges (ids : List EdgeId)
  | clear

namespace MarkCall

variable [Scalar K]

/-- Carrying out a call.  The answer is `false` for a heading for which nothing is unfavored. -/
def perform : MarkCall K → Marking K Bool
  | heading node x incoming => Marking.enforceHeading node x incoming
  | pair node edge => do
    Marking.unfavorPair node edge
    return true
  | edges ids => do
    modify (·.unfavorEdges ids)
    return true
  | clear => do
    modify (·.clearMarks)
    return true

/-- What a call answers. -/
def answer (c : MarkCall K) (q : QueryGraph K) : Except (Error K) Bool := (c.perform.run.run q).1

/-- The graph that a call leaves behind. -/
def after (c : MarkCall K) (q : QueryGraph K) : QueryGraph K := (c.perform.run.run q).2

end MarkCall

/-! ## §2. The calls are those of the query graph. -/

namespace Marking

open QueryGraph

variable {α β : Type} {q q' : QueryGraph K}

@[simp]
theorem run_get : (get : Marking K (QueryGraph K)).run.run q = (.ok q, q) := rfl

@[simp]
theorem run_pure (a : α) : (pure a : Marking K α).run.run q = (.ok a, q) := rfl

@[simp]
theorem run_settled (r : Except (Error K) α) : (settled r).run.run q = (r, q) := rfl

/-- A result together with the graph, if there is a result. -/
def handedBack (out : Except (Error K) α × QueryGraph K) : Except (Error K) (QueryGraph K × α) :=
  out.1.map fun a => (out.2, a)

/-- Two steps, if each hands back the graph. -/
theorem handedBack_bind {x : Marking K α} {f : α → Marking K β}
    {next : QueryGraph K × α → Except (Error K) (QueryGraph K × β)}
    (hf : ∀ q' a, handedBack ((f a).run.run q') = next (q', a)) :
    handedBack ((x >>= f).run.run q) = handedBack (x.run.run q) >>= next := by
  rw [run_bind]
  rcases x.run.run q with ⟨r, q'⟩
  cases r with
  | error e => rfl
  | ok a => exact hf q' a

theorem handedBack_foldlM {σ : Type} {step : β → σ → Marking K β}
    {step' : QueryGraph K × β → σ → Except (Error K) (QueryGraph K × β)}
    (h : ∀ q b s, handedBack ((step b s).run.run q) = step' (q, b) s) (ss : List σ) (b : β)
    (q : QueryGraph K) :
    handedBack ((ss.foldlM step b).run.run q) = ss.foldlM step' (q, b) := by
  induction ss generalizing b q with
  | nil => rfl
  | cons s ss ih =>
    rw [List.foldlM_cons, List.foldlM_cons, ← h]
    exact handedBack_bind fun q' b' => ih b' q'

variable [Scalar K]

theorem handedBack_enforceSlot (node : NodeId) (favored : K) (incoming : Bool) (slot : Slot)
    (q : QueryGraph K) : handedBack ((enforceSlot node favored incoming slot).run.run q) =
      QueryGraph.enforceSlot node favored incoming q slot := by
  unfold enforceSlot QueryGraph.enforceSlot
  simp only [run_bind, run_get]
  cases hslot : q.overlay.slotOf? node slot with
  | none => rfl
  | some index =>
    cases hpiece : q.overlay.piece? index with
    | none =>
      simp only [hpiece]
      rfl
    | some piece =>
      simp only [hpiece]
      split <;> rfl

theorem handedBack_enforceHeading (node : NodeId) (heading : K) (incoming : Bool)
    (q : QueryGraph K) : handedBack ((enforceHeading node heading incoming).run.run q) =
      q.enforceHeading node heading incoming := by
  unfold enforceHeading QueryGraph.enforceHeading
  simp only [run_bind, run_get, run_settled]
  cases hnode : q.checkNode node with
  | error e => rfl
  | ok u =>
    simp only
    split
    · rfl
    · split
      · rfl
      · refine handedBack_foldlM (fun q enforced slot => ?_) _ _ _
        rw [← handedBack_enforceSlot]
        exact handedBack_bind fun q' found => rfl

omit [Scalar K] in
theorem handedBack_unfavorPair (node : NodeId) (edge : EdgeId) (q : QueryGraph K) :
    (handedBack ((unfavorPair node edge).run.run q)).map Prod.fst = q.unfavorPair node edge := by
  unfold unfavorPair QueryGraph.unfavorPair
  simp only [run_bind, run_get, run_settled]
  cases hnode : q.checkNode node with
  | error e => rfl
  | ok u =>
    simp only
    split
    · rfl
    · cases hindex : q.overlay.index? edge with
      | none => rfl
      | some index =>
        simp only
        cases harriving : arriving? q.overlay node index <;> rfl

end Marking

namespace MarkCall

variable [Scalar K]

/-- What the query graph itself hands back for a call. -/
def result (c : MarkCall K) (q : QueryGraph K) : Except (Error K) (QueryGraph K × Bool) :=
  match c with
  | heading node x incoming => q.enforceHeading node x incoming
  | pair node edge => (q.unfavorPair node edge).map fun q' => (q', true)
  | edges ids => .ok (q.unfavorEdges ids, true)
  | clear => .ok (q.clearMarks, true)

/-- **The query graph hands back** the answer of a call and the graph after it, or the failure. -/
theorem result_eq (c : MarkCall K) (q : QueryGraph K) :
    c.result q = (c.answer q).map fun b => (c.after q, b) := by
  cases c with
  | heading node x incoming => exact (Marking.handedBack_enforceHeading node x incoming q).symm
  | pair node edge =>
    unfold answer after
    rw [result, ← Marking.handedBack_unfavorPair, Marking.handedBack, perform, run_bind]
    rcases (Marking.unfavorPair node edge).run.run q with ⟨r, q'⟩
    cases r <;> rfl
  | edges ids => rfl
  | clear => rfl

end MarkCall

/-! ## §3. What a call does. -/

/-- Places of pieces, each with the place of the piece paired with it. -/
def Overlay.Paired (o : Overlay K) (P : List Nat) : Prop :=
  ∀ i ∈ P, ∃ p, o.piece? i = some p ∧ p.pair ∈ P

theorem Overlay.Paired.append {o : Overlay K} {P P' : List Nat} (h : o.Paired P)
    (h' : o.Paired P') : o.Paired (P ++ P') := by
  intro i hi
  rcases List.mem_append.1 hi with hi | hi
  · obtain ⟨p, hp, hpair⟩ := h i hi
    exact ⟨p, hp, List.mem_append_left _ hpair⟩
  · obtain ⟨p, hp, hpair⟩ := h' i hi
    exact ⟨p, hp, List.mem_append_right _ hpair⟩

/-- The pair of the pair is the piece itself. -/
theorem Overlay.Paired.mem_iff {o : Overlay K} {P : List Nat} (hP : o.Paired P) (h : o.WellLinked)
    {i : Nat} {p : Piece K} (hp : o.piece? i = some p) : p.pair ∈ P ↔ i ∈ P := by
  have hclosed : ∀ {j : Nat} {q : Piece K}, o.piece? j = some q → j ∈ P → q.pair ∈ P := by
    intro j q hq hj
    obtain ⟨q', hq', hpair⟩ := hP j hj
    obtain rfl : q' = q := Option.some.inj (hq'.symm.trans hq)
    exact hpair
  obtain ⟨-, q, hq, hback, -⟩ := h.pair i p hp
  exact ⟨fun hpair => hback ▸ hclosed hq hpair, hclosed hp⟩

theorem Overlay.WellLinked.paired {o : Overlay K} (h : o.WellLinked) {i : Nat} {p : Piece K}
    (hp : o.piece? i = some p) : o.Paired [i, p.pair] := by
  obtain ⟨-, p', hp', hback, -⟩ := h.pair i p hp
  intro j hj
  rcases List.mem_pair.1 hj with rfl | rfl
  · exact ⟨p, hp, by simp⟩
  · exact ⟨p', hp', by simp [hback]⟩

/-- **The effect of a call**: it answers the same and marks the same places whatever marks there
are; and where it fails, or finds nothing to mark, it marks nothing. -/
structure MarkCall.Effect [Scalar K] (g : RoadGraph K) (o : Overlay K) (c : MarkCall K)
    (a : Except (Error K) Bool) (P : List Nat) : Prop where
  paired : o.Paired P
  idle : a ≠ .ok true → P = []
  run : ∀ m t, c.perform.run.run (QueryGraph.marking g o m t) =
    (a, P.foldl QueryGraph.markOne (QueryGraph.marking g o m t))

namespace Marking

open QueryGraph

variable [Scalar K] {g : RoadGraph K} {o : Overlay K} {m : Nat → Bool} {t : List Nat}

omit [Scalar K] in
/-- A slot of a virtual node names a piece. -/
theorem exists_piece_of_slot (h : o.WellLinked) {node : NodeId}
    (hnode : o.isVirtualNode node = true) (slot : Slot) :
    ∃ i p, o.slotOf? node slot = some i ∧ o.piece? i = some p := by
  obtain ⟨k, hk, rfl⟩ := Overlay.exists_of_isVirtualNode hnode
  obtain ⟨⟨i, j, p, q, hi, hj, hp, hq, -⟩, i', j', p', q', hi', hj', hp', hq', -⟩ := h.beside k hk
  cases slot with
  | baseToSnap => exact ⟨i, p, hi, hp⟩
  | snapToBase => exact ⟨j, q, hj, hq⟩
  | snapToAdj => exact ⟨j', q', hj', hq'⟩
  | adjToSnap => exact ⟨i', p', hi', hp'⟩

/-- **What a heading does at a slot.** -/
theorem exists_slot_effect (h : o.WellLinked) {node : NodeId} (hnode : o.isVirtualNode node = true)
    (favored : K) (incoming : Bool) (slot : Slot) :
    ∃ found P, o.Paired P ∧ (found = false → P = []) ∧ ∀ m t,
      (enforceSlot node favored incoming slot).run.run (marking g o m t) =
        (.ok found, P.foldl markOne (marking g o m t)) := by
  obtain ⟨i, p, hi, hp⟩ := exists_piece_of_slot h hnode slot
  -- Whether a piece deviates depends on its shape alone.
  have hrun : ∀ m t, (enforceSlot node favored incoming slot).run.run (marking g o m t) =
      if deviates favored incoming p.shape then (.ok true, (marking g o m t).mark i)
      else (.ok false, marking g o m t) := by
    intro m t
    have hslot : (marking g o m t).overlay.slotOf? node slot = some i := hi
    unfold enforceSlot
    simp only [run_bind, run_get, hslot, piece?_marking hp]
    split <;> rfl
  cases hdeviates : deviates favored incoming p.shape with
  | false =>
    refine ⟨false, [], fun i hi => by simp at hi, fun _ => rfl, fun m t => ?_⟩
    rw [hrun, hdeviates]
    rfl
  | true =>
    refine ⟨true, [i, p.pair], h.paired hp, by simp, fun m t => ?_⟩
    rw [hrun, hdeviates, if_pos rfl, mark_marking hp]

/-- **What a heading does at some slots**, one after the other. -/
theorem exists_slots_effect (h : o.WellLinked) {node : NodeId}
    (hnode : o.isVirtualNode node = true) (favored : K) (incoming : Bool) (slots : List Slot) :
    ∃ found P, o.Paired P ∧ (found = false → P = []) ∧ ∀ enforced m t,
      (slots.foldlM (fun enforced slot => do
        let found ← enforceSlot node favored incoming slot
        return enforced || found) enforced).run.run (marking g o m t) =
        (.ok (enforced || found), P.foldl markOne (marking g o m t)) := by
  induction slots with
  | nil =>
    refine ⟨false, [], fun i hi => by simp at hi, fun _ => rfl, fun enforced m t => ?_⟩
    rw [Bool.or_false]
    rfl
  | cons slot slots ih =>
    obtain ⟨found, P, hP, hidle, hrun⟩ := exists_slot_effect (g := g) h hnode favored incoming slot
    obtain ⟨found', P', hP', hidle', hrun'⟩ := ih
    refine ⟨found || found', P ++ P', hP.append hP', fun hnone => ?_, fun enforced m t => ?_⟩
    · obtain ⟨hfound, hfound'⟩ := Bool.or_eq_false_iff.1 hnone
      rw [hidle hfound, hidle' hfound']
      rfl
    · simp only [List.foldlM_cons, run_bind, hrun, run_pure]
      rw [List.foldl_append, foldl_markOne_marking P, hrun', Bool.or_assoc]

end Marking

namespace MarkCall

open QueryGraph

variable [Scalar K] {g : RoadGraph K} {o : Overlay K} {a : Except (Error K) Bool}

/-- A call that marks nothing. -/
theorem effect_nil {c : MarkCall K}
    (h : ∀ m t, c.perform.run.run (marking g o m t) = (a, marking g o m t)) : c.Effect g o a [] :=
  ⟨fun i hi => by simp at hi, fun _ => rfl, h⟩

/-- A heading reads the number of nodes, the kind of the node and no mark before it comes to the
slots. -/
theorem run_enforceHeading (node : NodeId) (x : K) (incoming : Bool) (m : Nat → Bool)
    (t : List Nat) :
    (Marking.enforceHeading node x incoming).run.run (marking g o m t) =
      match (ofOverlay g o).checkNode node with
      | .error e => (.error e, marking g o m t)
      | .ok _ =>
        if Scalar.isNaN x || !o.isVirtualNode node then (.ok false, marking g o m t)
        else if !Scalar.within 0 360 x then (.error (.invalidHeading x), marking g o m t)
        else ((headingSlots incoming).foldlM (fun enforced slot => do
          let found ← Marking.enforceSlot node (Geo.ofAzimuth x) incoming slot
          return enforced || found) false : Marking K Bool).run.run (marking g o m t) := by
  have hcheck : (marking g o m t).checkNode node = (ofOverlay g o).checkNode node := rfl
  have hvirtual : (marking g o m t).isVirtualNode node = o.isVirtualNode node := rfl
  unfold Marking.enforceHeading
  simp only [run_bind, Marking.run_get, Marking.run_settled, hcheck, hvirtual]
  cases (ofOverlay g o).checkNode node with
  | error e => rfl
  | ok u =>
    simp only
    split
    · rfl
    · split <;> rfl

theorem exists_effect_heading (h : o.WellLinked) (node : NodeId) (x : K) (incoming : Bool) :
    ∃ a P, (heading node x incoming).Effect g o a P := by
  have hperform : (heading node x incoming).perform = Marking.enforceHeading node x incoming := rfl
  -- Calls that are refused or that have nothing to do mark nothing.
  cases hnode : (ofOverlay g o).checkNode node with
  | error e =>
    refine ⟨.error e, [], effect_nil fun m t => ?_⟩
    simp only [hperform, run_enforceHeading, hnode]
  | ok u =>
    by_cases hskip : (Scalar.isNaN x || !o.isVirtualNode node) = true
    · refine ⟨.ok false, [], effect_nil fun m t => ?_⟩
      simp only [hperform, run_enforceHeading, hnode, if_pos hskip]
    by_cases hwithin : (!Scalar.within 0 360 x) = true
    · refine ⟨.error (.invalidHeading x), [], effect_nil fun m t => ?_⟩
      simp only [hperform, run_enforceHeading, hnode, if_neg hskip, if_pos hwithin]
    have hvirtual : o.isVirtualNode node = true := by
      simp only [Bool.or_eq_true, not_or, Bool.not_eq_true', Bool.not_eq_false] at hskip
      exact hskip.2
    obtain ⟨found, P, hP, hidle, hrun⟩ := Marking.exists_slots_effect (g := g) h hvirtual
      (Geo.ofAzimuth x) incoming (headingSlots incoming)
    refine ⟨.ok found, P, hP, fun hne => hidle ?_, fun m t => ?_⟩
    · cases found with
      | false => rfl
      | true => exact absurd rfl hne
    · simp only [hperform, run_enforceHeading, hnode, if_neg hskip, if_neg hwithin]
      rw [hrun, Bool.false_or]

omit [Scalar K] in
/-- The pieces of virtual edge ids exist. -/
theorem exists_piece_of_index (h : o.WellLinked) {edge : EdgeId} {i : Nat}
    (hindex : o.index? edge = some i) : ∃ p, o.piece? i = some p := by
  unfold Overlay.index? at hindex
  split at hindex
  · cases hindex
  · obtain ⟨i', p, hi', hp⟩ := h.slot _ (Array.getElem?_eq_some_iff.1 hindex).1
    obtain rfl : i' = i := Option.some.inj (hi'.symm.trans hindex)
    exact ⟨p, hp⟩

omit [Scalar K] in
/-- Which piece arrives at a node does not depend on marks. -/
theorem arriving?_withMarks (o : Overlay K) (m : Nat → Bool) (node : NodeId) (i : Nat) :
    arriving? (o.withMarks m) node i = arriving? o node i := by
  unfold arriving?
  rw [Overlay.piece?_withMarks]
  cases o.piece? i <;> rfl

omit [Scalar K] in
theorem exists_piece_of_arriving (h : o.WellLinked) {node : NodeId} {i j : Nat}
    (harriving : arriving? o node i = some j) : ∃ p, o.piece? j = some p := by
  unfold arriving? at harriving
  obtain ⟨p, hp, hif⟩ := Option.bind_eq_some_iff.1 harriving
  split at hif
  · obtain rfl := Option.some.inj hif
    exact ⟨p, hp⟩
  · split at hif
    · obtain rfl := Option.some.inj hif
      obtain ⟨-, q, hq, -⟩ := h.pair i p hp
      exact ⟨q, hq⟩
    · cases hif

omit [Scalar K] in
/-- A single request finds the arriving piece, and reads no mark. -/
theorem run_unfavorPair (node : NodeId) (edge : EdgeId) (m : Nat → Bool) (t : List Nat) :
    (Marking.unfavorPair node edge).run.run (marking g o m t) =
      match (ofOverlay g o).checkNode node with
      | .error e => (.error e, marking g o m t)
      | .ok _ =>
        if !o.isVirtualNode node then (.error (.notVirtualNode node), marking g o m t)
        else match o.index? edge with
          | none => (.error (.notVirtualEdge edge), marking g o m t)
          | some i => match arriving? o node i with
            | none => (.error (.edgeNotAdjacent edge node), marking g o m t)
            | some j => (.ok (), (marking g o m t).mark j) := by
  -- No check looks at marks.
  have hcheck : (marking g o m t).checkNode node = (ofOverlay g o).checkNode node := rfl
  have hvirtual : (marking g o m t).isVirtualNode node = o.isVirtualNode node := rfl
  have hindex : (marking g o m t).overlay.index? edge = o.index? edge := rfl
  have harriving : ∀ i, arriving? (marking g o m t).overlay node i = arriving? o node i :=
    fun i => arriving?_withMarks o m node i
  unfold Marking.unfavorPair
  simp only [run_bind, Marking.run_get, Marking.run_settled, hcheck, hvirtual, hindex]
  cases (ofOverlay g o).checkNode node with
  | error e => rfl
  | ok u =>
    simp only
    split
    · rfl
    · cases o.index? edge with
      | none => rfl
      | some i =>
        simp only [harriving]
        cases arriving? o node i <;> rfl

theorem exists_effect_pair (h : o.WellLinked) (node : NodeId) (edge : EdgeId) :
    ∃ a P, (pair node edge).Effect g o a P := by
  have hfails : ∀ e, (∀ m t, (Marking.unfavorPair node edge).run.run (marking g o m t) =
      (.error e, marking g o m t)) → ∃ a P, (pair node edge).Effect g o a P := by
    intro e he
    refine ⟨.error e, [], effect_nil fun m t => ?_⟩
    rw [perform, run_bind, he]
  cases hnode : (ofOverlay g o).checkNode node with
  | error e => exact hfails e fun m t => by simp only [run_unfavorPair, hnode]
  | ok u =>
    by_cases hreal : (!o.isVirtualNode node) = true
    · exact hfails _ fun m t => by simp only [run_unfavorPair, hnode, if_pos hreal]; rfl
    cases hindex : o.index? edge with
    | none =>
      exact hfails _ fun m t => by
        simp only [run_unfavorPair, hnode, if_neg hreal, hindex]; rfl
    | some i =>
      cases harriving : arriving? o node i with
      | none =>
        exact hfails _ fun m t => by
          simp only [run_unfavorPair, hnode, if_neg hreal, hindex, harriving]; rfl
      | some j =>
        obtain ⟨p, hp⟩ := exists_piece_of_arriving h harriving
        refine ⟨.ok true, [j, p.pair], h.paired hp, fun hne => absurd rfl hne, fun m t => ?_⟩
        rw [perform, run_bind, ← mark_marking hp]
        simp only [run_unfavorPair, hnode, if_neg hreal, hindex, harriving, Marking.run_pure]

theorem exists_effect_edges (h : o.WellLinked) (ids : List EdgeId) :
    ∃ P, (edges ids).Effect g o (.ok true) P := by
  have hrun : ∃ P, o.Paired P ∧ ∀ m t,
      (marking g o m t).unfavorEdges ids = P.foldl markOne (marking g o m t) := by
    -- Induction along the ids: the pass ends at the first one that names no piece.
    induction ids with
    | nil => exact ⟨[], fun i hi => by simp at hi, fun m t => rfl⟩
    | cons id ids ih =>
      have hindex' : ∀ m t, (marking g o m t).overlay.index? id = o.index? id := fun _ _ => rfl
      cases hindex : o.index? id with
      | none =>
        refine ⟨[], fun i hi => by simp at hi, fun m t => ?_⟩
        simp only [unfavorEdges, hindex', hindex, List.foldl_nil]
      | some i =>
        obtain ⟨p, hp⟩ := exists_piece_of_index h hindex
        obtain ⟨P, hP, hrun⟩ := ih
        refine ⟨[i, p.pair] ++ P, (h.paired hp).append hP, fun m t => ?_⟩
        simp only [unfavorEdges, hindex', hindex]
        rw [mark_marking hp, foldl_markOne_marking, hrun, ← foldl_markOne_marking,
          ← List.foldl_append]
  obtain ⟨P, hP, hrun⟩ := hrun
  refine ⟨P, hP, fun hne => absurd rfl hne, fun m t => ?_⟩
  show (Except.ok true, (marking g o m t).unfavorEdges ids) = _
  rw [hrun]

/-- **Every call but that which takes back marks** has an effect. -/
theorem exists_effect (h : o.WellLinked) {c : MarkCall K} (hc : c ≠ clear) :
    ∃ a P, c.Effect g o a P := by
  cases c with
  | heading node x incoming => exact exists_effect_heading h node x incoming
  | pair node edge => exact exists_effect_pair h node edge
  | edges ids => exact ⟨_, exists_effect_edges h ids⟩
  | clear => exact absurd rfl hc

/-! ## §4. What a call does to marks and list. -/

variable {P : List Nat} {c : MarkCall K}

theorem Effect.answer_eq (h : c.Effect g o a P) (m : Nat → Bool) (t : List Nat) :
    c.answer (marking g o m t) = a := congrArg Prod.fst (h.run m t)

theorem Effect.after_eq (h : c.Effect g o a P) (m : Nat → Bool) (t : List Nat) :
    c.after (marking g o m t) =
      marking g o (fun i => m i || P.contains i) (P.foldl track t) := by
  rw [after, h.run]
  exact foldl_markOne_marking P

theorem after_clear (m : Nat → Bool) (t : List Nat) :
    (clear : MarkCall K).after (marking g o m t) =
      marking g o (fun i => m i && !t.contains i) [] := clearMarks_marking

/-- **A call marks a place** when a graph that has just been opened lists it after the call. -/
def Marks (g : RoadGraph K) (o : Overlay K) (c : MarkCall K) (i : Nat) : Prop :=
  i ∈ (c.after (ofOverlay g o)).tracked

theorem not_marks_clear (i : Nat) : ¬ (clear : MarkCall K).Marks g o i := by
  intro h
  cases h

theorem Effect.marks_iff (h : c.Effect g o a P) (ho : o.Fresh) (i : Nat) :
    c.Marks g o i ↔ i ∈ P := by
  unfold Marks
  rw [ofOverlay_eq_marking ho, h.after_eq]
  show i ∈ P.foldl track [] ↔ i ∈ P
  rw [mem_foldl_track]
  simp

end MarkCall

end RoadSplice

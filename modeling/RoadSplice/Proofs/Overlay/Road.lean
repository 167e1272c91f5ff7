/-
  RoadSplice.Proofs.Overlay.Road — the chain of one road.

  The snaps of a road are put in order along its shape, strung on an anchor at the base node, and
  closed by the part that leads to the adjacent node.  If all of them are at the spot of the base
  node, the road gets no chain.
-/
import RoadSplice.Proofs.Overlay.Link

namespace RoadSplice.Splicing

variable {K : Type} [Scalar K] {w w' : Splicing K} {g : RoadGraph K} {indices : List Nat}

/-! ## §1. The order along a road. -/

/-- One snap with its place along a road. -/
def keyOf (shape : Polyline K) (i : Nat) : SpliceM K ((Nat × K) × Nat) := do
  let some key := along shape (← snap i) | throw .outOfRange
  return (key, i)

theorem yields_keyOf {shape : Polyline K} {i : Nat} {k : (Nat × K) × Nat} :
    Yields (keyOf shape i) w k w' ↔
      (∃ s, w.snaps[i]? = some s ∧ along shape s = some k.1) ∧ k.2 = i ∧ w' = w := by
  unfold keyOf
  simp only [yields_bind, yields_snap]
  constructor
  · rintro ⟨s, v, ⟨hs, rfl⟩, h⟩
    cases halong : along shape s with
    | none => simp [halong] at h
    | some key =>
      simp only [halong, yields_pure] at h
      obtain ⟨rfl, rfl⟩ := h
      exact ⟨⟨s, hs, halong⟩, rfl, rfl⟩
  · rintro ⟨⟨s, hs, halong⟩, rfl, rfl⟩
    exact ⟨s, _, ⟨hs, rfl⟩, by simp [halong]⟩

/-- **Sorting** reads the place of every snap and sorts by it. -/
theorem sortAlong_inv {shape : Polyline K} {ordered : List Nat}
    (h : Yields (sortAlong shape indices) w ordered w') :
    w' = w ∧ ∃ keyed : List ((Nat × K) × Nat), keyed.map (·.2) = indices ∧
      ordered = (keyed.mergeSort fun (a, _) (b, _) => atOrBefore a b).map (·.2) ∧
      ∀ k ∈ keyed, ∃ s, w.snaps[k.2]? = some s ∧ along shape s = some k.1 := by
  unfold sortAlong at h
  rw [yields_bind] at h
  obtain ⟨keyed, v, hkeyed, h⟩ := h
  obtain ⟨rfl, rfl⟩ := yields_pure.1 h
  change Yields (indices.mapM (keyOf shape)) w keyed w' at hkeyed
  -- Reading the keys changes nothing, so the sorted list is that of the snaps as they were.
  have hmap : w' = w ∧ keyed.map (·.2) = indices ∧
      ∀ k ∈ keyed, ∃ s, w.snaps[k.2]? = some s ∧ along shape s = some k.1 := by
    clear h
    induction indices generalizing keyed w with
    | nil =>
      obtain ⟨rfl, rfl⟩ := yields_pure.1 hkeyed
      simp
    | cons i indices ih =>
      rw [List.mapM_cons] at hkeyed
      simp only [yields_bind, yields_keyOf, yields_pure] at hkeyed
      obtain ⟨k, _, ⟨hk, rfl, rfl⟩, ks, _, hks, rfl, rfl⟩ := hkeyed
      obtain ⟨rfl, hsnd, hall⟩ := ih ks hks
      refine ⟨rfl, by simp [hsnd], fun k' hk' => ?_⟩
      obtain rfl | hk' := List.mem_cons.1 hk'
      · exact hk
      · exact hall k' hk'
  exact ⟨hmap.1, keyed, hmap.2.1, rfl, hmap.2.2⟩

/-- Snaps in the order of their places along a shape. -/
def SortedAlong (snaps : Array (Snap K)) (shape : Polyline K) (indices : List Nat)
    (ss : List (Snap K)) : Prop :=
  ∃ keyed : List ((Nat × K) × Nat), keyed.map (·.2) = indices ∧
    List.Forall₂ (fun k s => snaps[k.2]? = some s ∧ along shape s = some k.1)
      (keyed.mergeSort fun (a, _) (b, _) => atOrBefore a b) ss

/-- What stands in the first list has a partner in the second one. -/
theorem exists_right {α β : Type} {R : α → β → Prop} {xs : List α} {ys : List β}
    (h : List.Forall₂ R xs ys) {x : α} (hx : x ∈ xs) : ∃ y ∈ ys, R x y := by
  induction h with
  | nil => simp at hx
  | @cons a b xs ys hab _ ih =>
    obtain rfl | hx := List.mem_cons.1 hx
    · exact ⟨b, by simp, hab⟩
    · obtain ⟨y, hy, hxy⟩ := ih hx
      exact ⟨y, by simp [hy], hxy⟩

theorem exists_left {α β : Type} {R : α → β → Prop} {xs : List α} {ys : List β}
    (h : List.Forall₂ R xs ys) {y : β} (hy : y ∈ ys) : ∃ x ∈ xs, R x y :=
  exists_right (List.Forall₂.flip h) hy

/-- Every snap that is sorted is among the sorted ones. -/
theorem SortedAlong.mem_of_read {snaps : Array (Snap K)} {shape : Polyline K}
    {ss : List (Snap K)} (h : SortedAlong snaps shape indices ss) {i : Nat} {s : Snap K}
    (hi : i ∈ indices) (hs : snaps[i]? = some s) : s ∈ ss := by
  obtain ⟨keyed, rfl, hall⟩ := h
  obtain ⟨k, hk, rfl⟩ := List.mem_map.1 hi
  obtain ⟨t, ht, hread, -⟩ := exists_right hall (List.mem_mergeSort.2 hk)
  obtain rfl : s = t := by simpa using hs.symm.trans hread
  exact ht

theorem sortedAlong_of_read {shape : Polyline K} {ordered : List Nat} {ss : List (Snap K)}
    (h : Yields (sortAlong shape indices) w ordered w')
    (hread : List.Forall₂ (fun i s => w.snaps[i]? = some s) ordered ss) :
    SortedAlong w.snaps shape indices ss := by
  obtain ⟨-, keyed, hkeyed, rfl, hall⟩ := sortAlong_inv h
  refine ⟨keyed, hkeyed, List.forall₂_iff_zip.2 ?_⟩
  obtain ⟨hlen, hzip⟩ := List.forall₂_iff_zip.1 (List.forall₂_map_left_iff.1 hread)
  refine ⟨hlen, fun {k s} hmem => ?_⟩
  have hs := hzip hmem
  obtain ⟨s', hs', halong⟩ := hall k (List.mem_mergeSort.1 (List.of_mem_zip hmem).1)
  obtain rfl : s = s' := by simpa using hs.symm.trans hs'
  exact ⟨hs, halong⟩

theorem sortAlong_perm {shape : Polyline K} {ordered : List Nat}
    (h : Yields (sortAlong shape indices) w ordered w') : ordered.Perm indices := by
  obtain ⟨-, keyed, rfl, rfl, -⟩ := sortAlong_inv h
  exact (List.mergeSort_perm keyed _).map _

/-! ## §2. The chain. -/

/-- The anchor at the base node of a road. -/
def baseAnchor (closest : DirectedEdge) (start : Point K) : Anchor K :=
  ⟨start, 1, closest.base, false, (0, .tower)⟩

/-- The stops of a road, in the order of its chain. -/
def stopsOf (o : Overlay K) (closest : DirectedEdge) (shape : Polyline K) (start : Point K)
    (ss : List (Snap K)) : List (Stop K) :=
  stopsFrom shape (baseAnchor closest start) (o.firstNode + o.nodeCount) ss

/-- **The chain of a road** through its snaps. -/
def chainOf (o : Overlay K) (closest : DirectedEdge) (shape : Polyline K) (start last : Point K)
    (ss : List (Snap K)) : Chain K :=
  (withStops (o.newChain closest) (stopsOf o closest shape start ss)).close
    (partTo shape (lastAnchor (baseAnchor closest start) (o.firstNode + o.nodeCount) ss) false
      last (shape.length - 2))

/-- **What splicing a road does** to an overlay of some chains. -/
structure RoadSpliced (g : RoadGraph K) (cs : List (Chain K)) (indices : List Nat)
    (w w' : Splicing K) (closest : DirectedEdge) (shape : Polyline K) (start last : Point K)
    (ss : List (Snap K)) : Prop where
  shape_eq : closest.shape g = .ok shape
  start_eq : shape.first? = some start
  last_eq : shape.last? = some last
  /-- The direction is that of the first snap. -/
  exists_first : ∃ first s, indices.head? = some first ∧ w.snaps[first]? = some s ∧
    s.closest = some closest
  sorted : SortedAlong w.snaps shape indices ss
  same_base : ∀ s ∈ ss, ∃ own, s.closest = some own ∧ own.base = closest.base
  grows : Overlay.Grows w.overlay w'.overlay
  others : ∀ i, i ∉ indices → w'.snaps[i]? = w.snaps[i]?
  settled : ∃ ordered, ordered.Perm indices ∧
    List.Forall₂ (fun i s => w.snaps[i]? = some s) ordered ss ∧
    List.Forall₂ (fun i s => w'.snaps[i]? = some s) ordered (settledFrom (baseAnchor closest start)
      (w.overlay.firstNode + w.overlay.nodeCount) ss)
  placed : ∀ (j : Nat) st, (stopsOf w.overlay closest shape start ss)[j]? = some st →
    ∃ i ∈ indices, w.snaps[i]? = some st.snap ∧ w'.snaps[i]? =
      some (st.snap.setNode (w.overlay.firstNode + w.overlay.nodeCount + j))
  laid : (stopsOf w.overlay closest shape start ss = [] ∧ w'.overlay.Laid cs) ∨
    (stopsOf w.overlay closest shape start ss ≠ [] ∧ 2 ≤ shape.length ∧
      w'.overlay.Laid (cs ++ [chainOf w.overlay closest shape start last ss]))

omit [Scalar K] in
theorem anchored_base {cs : List (Chain K)} (h : w.overlay.Laid cs) (closest : DirectedEdge)
    (start : Point K) :
    Anchored w.overlay closest (w.overlay.newChain closest) (baseAnchor closest start) :=
  ⟨h.growing closest, rfl, rfl, rfl⟩

section

variable {cs : List (Chain K)} {closest : DirectedEdge} {shape : Polyline K} {start : Point K}
  {a : Anchor K} {ss : List (Snap K)}

/-- A chain has begun when there are stops. -/
theorem Strung.started_eq
    (h : Strung closest shape (w.overlay.newChain closest) (baseAnchor closest start) indices ss
      w w' a) : a.started = !(stopsOf w.overlay closest shape start ss).isEmpty := by
  rw [h.anchored.started]
  show (!((stopsOf w.overlay closest shape start ss).map (·.point)).isEmpty) = _
  rw [List.isEmpty_map]

/-- Without stops the road keeps its overlay. -/
theorem Strung.laid_uncut (hlaid : w.overlay.Laid cs)
    (h : Strung closest shape (w.overlay.newChain closest) (baseAnchor closest start) indices ss
      w w' a) (hstops : stopsOf w.overlay closest shape start ss = []) : w'.overlay.Laid cs := by
  have hgrowing := h.anchored.growing
  rw [show stopsFrom shape (baseAnchor closest start) _ ss = [] from hstops,
    withStops_nil] at hgrowing
  exact hlaid.of_newChain h.grows hgrowing

/-- **With stops** the part to the adjacent node closes the chain. -/
theorem Strung.laid_cut (hlaid : w.overlay.Laid cs)
    (h : Strung closest shape (w.overlay.newChain closest) (baseAnchor closest start) indices ss
      w w' a) (hstops : stopsOf w.overlay closest shape start ss ≠ []) (last : Point K) :
    (w'.overlay.pushPart closest a.node closest.adj
        (partTo shape a false last (shape.length - 2))).Laid
      (cs ++ [chainOf w.overlay closest shape start last ss]) := by
  have hclose := hlaid.close h.grows h.anchored.growing rfl rfl (by
      show (stopsOf w.overlay closest shape start ss).map (·.point) ≠ []
      simpa using hstops)
    (partTo shape a false last (shape.length - 2))
  rw [← h.anchored.node, h.anchor_eq] at hclose
  rw [h.anchor_eq]
  exact hclose

end

/-- **Splicing a road** does nothing without snaps, and otherwise lays at most one chain. -/
theorem spliceRoad_inv {u : Unit} {cs : List (Chain K)} (hlaid : w.overlay.Laid cs)
    (hnodup : indices.Nodup) (h : Yields (spliceRoad g indices) w u w') :
    (indices = [] ∧ w' = w) ∨
      ∃ closest shape start last ss, RoadSpliced g cs indices w w' closest shape start last ss := by
  unfold spliceRoad at h
  cases hfirst : indices.head? with
  | none =>
    left
    simp only [hfirst, yields_pure] at h
    exact ⟨by simpa using hfirst, h.2⟩
  | some first =>
    right
    simp only [hfirst, yields_bind, yields_snap, yields_closestOf, yields_lift] at h
    obtain ⟨s, _, ⟨hs, rfl⟩, closest, _, ⟨hclosest, rfl⟩, shape, v, ⟨hshape, rfl⟩, h⟩ := h
    cases hstart : shape.first? with
    | none => simp [hstart] at h
    | some start =>
    cases hlast : shape.last? with
    | none => simp [hstart, hlast] at h
    | some last =>
    simp only [hstart, hlast, yields_bind] at h
    obtain ⟨ordered, v', hsort, a', v'', hlinks, h⟩ := h
    obtain ⟨rfl, -⟩ := sortAlong_inv hsort
    have hperm := sortAlong_perm hsort
    obtain ⟨ss, hss⟩ := links_inv (hperm.nodup_iff.2 hnodup) (anchored_base hlaid closest start)
      hlinks
    refine ⟨closest, shape, start, last, ss, ?_⟩
    -- Whether the chain is closed or not, the snaps and what was there before stay.
    have hdone : ∀ w'', w''.snaps = v''.snaps → Overlay.Grows v''.overlay w''.overlay →
        ((stopsOf v'.overlay closest shape start ss = [] ∧ w''.overlay.Laid cs) ∨
          (stopsOf v'.overlay closest shape start ss ≠ [] ∧ 2 ≤ shape.length ∧
            w''.overlay.Laid (cs ++ [chainOf v'.overlay closest shape start last ss]))) →
        RoadSpliced g cs indices v' w'' closest shape start last ss := fun w'' hsnaps hgrows hl =>
      { shape_eq := hshape
        start_eq := hstart
        last_eq := hlast
        exists_first := ⟨first, s, hfirst, hs, hclosest⟩
        sorted := sortedAlong_of_read hsort hss.read
        same_base := hss.same_base
        grows := hss.grows.trans hgrows
        others := fun i hi => by
          rw [hsnaps]
          exact hss.others i fun hmem => hi (hperm.mem_iff.1 hmem)
        settled := ⟨ordered, hperm, hss.read, hsnaps ▸ hss.settled⟩
        placed := fun j st hst => by
          obtain ⟨i, hi, hread, hplaced⟩ := hss.placed j st hst
          exact ⟨i, hperm.mem_iff.1 hi, hread, hsnaps ▸ hplaced⟩
        laid := hl }
    have hstarted := hss.started_eq
    by_cases hstops : stopsOf v'.overlay closest shape start ss = []
    · simp only [hstarted, hstops, List.isEmpty_nil, Bool.not_true, Bool.false_eq_true,
        ↓reduceIte, yields_pure] at h
      obtain ⟨-, rfl⟩ := h
      exact hdone w' rfl (.refl _) (.inl ⟨hstops, hss.laid_uncut hlaid hstops⟩)
    · have hsome := Bool.eq_false_iff.2 fun hempty => hstops (List.isEmpty_iff.1 hempty)
      simp only [hstarted, hsome, Bool.not_false, ↓reduceIte] at h
      by_cases hlen : shape.length < 2
      · simp [hlen] at h
      simp only [hlen, ↓reduceIte, yields_pushPiece] at h
      subst h
      exact hdone _ rfl (Overlay.grows_pushPair _ _ _ _ _ _ _)
        (.inr ⟨hstops, Nat.le_of_not_lt hlen, hss.laid_cut hlaid hstops last⟩)

end RoadSplice.Splicing

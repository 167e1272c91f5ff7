/-
  RoadSplice.Proofs.Overlay.Link — the snaps of one road become a chain.

  Work on an overlay that comes to an end is inverted step by step.  One more snap either takes
  over the last anchor or becomes a virtual node behind the part that leads to it; which of the
  two, and where the part runs, depends on the snaps before it on the road and on nothing else.
-/
import Mathlib.Data.List.Forall2
import RoadSplice.Proofs.Overlay.Chain

namespace RoadSplice.Splicing

variable {K : Type} {α β : Type} {w w' w'' : Splicing K}

/-! ## §1. Work that comes to an end. -/

/-- **Work comes to an end** with a result. -/
def Yields (x : SpliceM K α) (w : Splicing K) (a : α) (w' : Splicing K) : Prop :=
  x.run.run w = (.ok a, w')

@[simp]
theorem yields_pure {a b : α} : Yields (pure a) w b w' ↔ b = a ∧ w' = w := by
  show ((.ok a, w) : Except (Error K) α × Splicing K) = (.ok b, w') ↔ _
  simp only [Prod.mk.injEq, Except.ok.injEq]
  exact and_congr eq_comm eq_comm

@[simp]
theorem yields_throw {e : Error K} {a : α} : ¬ Yields (throw e) w a w' := by
  show ((.error e, w) : Except (Error K) α × Splicing K) ≠ (.ok a, w')
  simp

theorem yields_bind {x : SpliceM K α} {f : α → SpliceM K β} {b : β} :
    Yields (x >>= f) w b w'' ↔ ∃ a w', Yields x w a w' ∧ Yields (f a) w' b w'' := by
  unfold Yields
  rw [run_bind]
  generalize x.run.run w = r
  obtain ⟨r, v⟩ := r
  cases r with
  | error e =>
    show ((.error e, v) : Except (Error K) β × Splicing K) = (.ok b, w'') ↔ _
    refine iff_of_false (by simp) ?_
    rintro ⟨a, w', h, -⟩
    cases h
  | ok a =>
    show (f a).run.run v = (.ok b, w'') ↔ _
    constructor
    · exact fun h => ⟨a, v, rfl, h⟩
    · rintro ⟨a', w', h, hf⟩
      cases h
      exact hf

/-- What follows work that comes to an end. -/
theorem run_bind_of_yields {x : SpliceM K α} {f : α → SpliceM K β} {a : α}
    (h : Yields x w a w') : (x >>= f).run.run w = (f a).run.run w' := by
  have hrun : x.run.run w = (.ok a, w') := h
  rw [run_bind, hrun]

/-- What follows a step need be the same only where the step can lead. -/
theorem run_bind_congr {x : SpliceM K α} {f f' : α → SpliceM K β}
    (h : ∀ a v, Yields x w a v → (f a).run.run v = (f' a).run.run v) :
    (x >>= f).run.run w = (x >>= f').run.run w := by
  unfold Yields at h
  rw [run_bind, run_bind]
  rcases hrun : x.run.run w with ⟨r, v⟩
  cases r with
  | error e => rfl
  | ok a => exact h a v hrun

/-- A step may be put in the place of another one that does the same. -/
theorem run_bind_left {x x' : SpliceM K α} {f : α → SpliceM K β}
    (h : x.run.run w = x'.run.run w) : (x >>= f).run.run w = (x' >>= f).run.run w := by
  rw [run_bind, run_bind, h]

@[simp]
theorem yields_get {v : Splicing K} : Yields get w v w' ↔ v = w ∧ w' = w := by
  show ((.ok w, w) : Except (Error K) (Splicing K) × Splicing K) = (.ok v, w') ↔ _
  simp only [Prod.mk.injEq, Except.ok.injEq]
  exact and_congr eq_comm eq_comm

@[simp]
theorem yields_modify {f : Splicing K → Splicing K} {u : Unit} :
    Yields (modify f) w u w' ↔ w' = f w := by
  show ((.ok (), f w) : Except (Error K) Unit × Splicing K) = (.ok u, w') ↔ _
  simp only [Prod.mk.injEq, true_and]
  exact eq_comm

@[simp]
theorem yields_lift {r : Except (Error K) α} {a : α} : Yields (lift r) w a w' ↔ r = .ok a ∧ w' = w := by
  show ((r, w) : Except (Error K) α × Splicing K) = (.ok a, w') ↔ _
  simp only [Prod.mk.injEq]
  exact and_congr_right fun _ => eq_comm

@[simp]
theorem yields_snap {i : Nat} {s : Snap K} :
    Yields (snap i) w s w' ↔ w.snaps[i]? = some s ∧ w' = w := by
  unfold snap
  simp only [yields_bind, yields_get]
  constructor
  · rintro ⟨v, v', ⟨rfl, rfl⟩, h⟩
    cases hs : v'.snaps[i]? with
    | none => simp [hs] at h
    | some s' =>
      simp only [hs, yields_pure] at h
      exact ⟨by rw [h.1], h.2⟩
  · rintro ⟨hs, rfl⟩
    exact ⟨w', w', ⟨rfl, rfl⟩, by simp [hs]⟩

@[simp]
theorem yields_closestOf {s : Snap K} {i : Nat} {d : DirectedEdge} :
    Yields (closestOf s i) w d w' ↔ s.closest = some d ∧ w' = w := by
  unfold closestOf
  cases hs : s.closest with
  | none => simp
  | some d' =>
    simp only [yields_pure, Option.some.injEq]
    exact and_congr_left fun _ => eq_comm

@[simp]
theorem yields_setSnap {i : Nat} {s : Snap K} {u : Unit} :
    Yields (setSnap i s) w u w' ↔ w' = { w with snaps := w.snaps.setIfInBounds i s } :=
  yields_modify

@[simp]
theorem yields_modifyOverlay {f : Overlay K → Overlay K} {u : Unit} :
    Yields (modifyOverlay f) w u w' ↔ w' = { w with overlay := f w.overlay } := yields_modify

/-! ## §2. One snap. -/

variable [Scalar K]

/-- The part from an anchor to a point. -/
def partTo (shape : Polyline K) (a : Anchor K) (isPillar : Bool) (point : Point K)
    (wayIndex : Nat) : Part K :=
  ⟨pieceShape shape a isPillar point wayIndex,
    Geo.lengthOf (pieceShape shape a isPillar point wayIndex)⟩

@[simp]
theorem yields_pushPiece {closest : DirectedEdge} {shape : Polyline K} {a : Anchor K}
    {isPillar : Bool} {point : Point K} {wayIndex : Nat} {node : NodeId} {u : Unit} :
    Yields (pushPiece closest shape a isPillar point wayIndex node) w u w' ↔
      w' = { w with overlay := w.overlay.pushPart closest a.node node
                      (partTo shape a isPillar point wayIndex) } := by
  unfold pushPiece
  exact yields_modifyOverlay

/-- The part from an anchor to a snap behind it. -/
def partToSnap (shape : Polyline K) (a : Anchor K) (s : Snap K) : Part K :=
  partTo shape a (s.position = .pillar) (s.point.getD a.point) s.wayIndex

/-- The anchor that a snap becomes. -/
def anchorAt (a : Anchor K) (s : Snap K) (node : NodeId) : Anchor K :=
  ⟨s.point.getD a.point, s.wayIndex + 1, node, true, (s.wayIndex, s.position)⟩

/-- **What one more snap does**: at the spot of the anchor it takes over the anchor, elsewhere it
becomes a virtual node. -/
theorem link_inv {closest : DirectedEdge} {shape : Polyline K} {a a' : Anchor K} {i : Nat}
    (h : Yields (link closest shape a i) w a' w') :
    ∃ s own, w.snaps[i]? = some s ∧ s.closest = some own ∧ own.base = closest.base ∧
      ((a.point.coincides (s.point.getD a.point) = true ∧ a' = a ∧
          w' = { w with snaps := w.snaps.setIfInBounds i (collapsed s a) }) ∨
        (a.point.coincides (s.point.getD a.point) = false ∧
          a' = anchorAt a s (w.overlay.firstNode + w.overlay.nodeCount) ∧
          w' = { overlay := w.overlay.pushStop closest a.node (partToSnap shape a s)
                    (s.point.getD a.point) a.started
                 snaps := w.snaps.setIfInBounds i
                    (s.setNode (w.overlay.firstNode + w.overlay.nodeCount)) })) := by
  unfold link at h
  simp only [yields_bind, yields_snap, yields_closestOf] at h
  obtain ⟨s, _, ⟨hs, rfl⟩, own, _, ⟨hown, rfl⟩, h⟩ := h
  refine ⟨s, own, hs, hown, ?_⟩
  -- A snap whose road begins at another node is refused.
  by_cases hbase : own.base = closest.base
  · refine ⟨hbase, ?_⟩
    simp only [ne_eq, hbase, not_true_eq_false, ↓reduceIte] at h
    cases hco : a.point.coincides (s.point.getD a.point) with
    | true =>
      simp only [hco, ↓reduceIte, yields_bind, yields_setSnap, yields_pure] at h
      obtain ⟨_, _, rfl, rfl, rfl⟩ := h
      exact .inl ⟨rfl, rfl, rfl⟩
    | false =>
      simp only [hco, Bool.false_eq_true, ↓reduceIte, yields_bind, yields_get, yields_pushPiece,
        yields_modifyOverlay] at h
      obtain ⟨_, _, ⟨rfl, rfl⟩, _, _, rfl, _, _, rfl, h⟩ := h
      refine .inr ⟨rfl, ?_⟩
      unfold Overlay.pushStop
      cases hstarted : a.started with
      | true =>
        simp only [hstarted, ↓reduceIte, yields_bind, yields_modifyOverlay, yields_setSnap,
          yields_pure] at h
        obtain ⟨_, _, rfl, _, _, rfl, rfl, rfl⟩ := h
        exact ⟨rfl, rfl⟩
      | false =>
        simp only [hstarted, Bool.false_eq_true, ↓reduceIte, yields_bind, yields_setSnap,
          yields_pure] at h
        obtain ⟨_, _, rfl, rfl, rfl⟩ := h
        exact ⟨rfl, rfl⟩
  · simp [hbase] at h

/-- The place of the snap that was linked last, as it is now; before the first one, that of the
base node. -/
def previousPlace (snaps : Array (Snap K)) (done : List Nat) : Option (Nat × Position) :=
  match done.getLast? with
  | none => some (0, .tower)
  | some i => snaps[i]?.map fun s => (s.wayIndex, s.position)

/-- A snap that has been linked is at the place that the anchor keeps, whether it took over the
anchor or became the next one. -/
theorem link_place {closest : DirectedEdge} {shape : Polyline K} {a a' : Anchor K} {i : Nat}
    (h : Yields (link closest shape a i) w a' w') :
    ∃ s, w'.snaps[i]? = some s ∧ (s.wayIndex, s.position) = a'.place := by
  obtain ⟨s, own, hs, -, -, hcases⟩ := link_inv h
  have hlt := (Array.getElem?_eq_some_iff.1 hs).1
  obtain ⟨-, rfl, rfl⟩ | ⟨-, rfl, rfl⟩ := hcases
  · exact ⟨_, Array.getElem?_setIfInBounds_self_of_lt hlt, rfl⟩
  · exact ⟨_, Array.getElem?_setIfInBounds_self_of_lt hlt, rfl⟩

/-- **The place that the anchor keeps** is that of the snap before, at every snap of a road: a snap
at the spot of the anchor takes over what can be read there. -/
theorem previousPlace_of_links {closest : DirectedEdge} {shape : Polyline K} {done : List Nat}
    {a a' : Anchor K} (hstart : a.place = (0, .tower))
    (h : Yields (done.foldlM (link closest shape) a) w a' w') :
    previousPlace w'.snaps done = some a'.place := by
  obtain rfl | ⟨before, i, rfl⟩ := List.eq_nil_or_concat done
  · obtain ⟨rfl, -⟩ := yields_pure.1 h
    exact congrArg some hstart.symm
  · rw [List.concat_eq_append] at h ⊢
    rw [List.foldlM_append, yields_bind] at h
    obtain ⟨b, v, -, hlast⟩ := h
    rw [List.foldlM_cons, yields_bind] at hlast
    obtain ⟨b', v', hlink, hend⟩ := hlast
    obtain ⟨rfl, rfl⟩ := yields_pure.1 hend
    obtain ⟨s, hs, hplace⟩ := link_place hlink
    unfold previousPlace
    rw [List.getLast?_concat]
    dsimp only
    rw [hs, Option.map_some, hplace]

/-! ## §3. The snaps of a road. -/

/-- A snap that has become a virtual node, the point where it lies and the part before it. -/
structure Stop (K : Type) where
  snap : Snap K
  point : Point K
  part : Part K

/-- **The stops behind an anchor**: the snaps that are not at the spot of the stop before them;
virtual nodes are numbered from `n`. -/
def stopsFrom (shape : Polyline K) : Anchor K → NodeId → List (Snap K) → List (Stop K)
  | _, _, [] => []
  | a, n, s :: ss =>
    if a.point.coincides (s.point.getD a.point) then stopsFrom shape a n ss
    else ⟨s, s.point.getD a.point, partToSnap shape a s⟩ ::
      stopsFrom shape (anchorAt a s n) (n + 1) ss

/-- **What becomes of the snaps behind an anchor**: one at the spot of the stop before it takes
that over, any other is a virtual node. -/
def settledFrom : Anchor K → NodeId → List (Snap K) → List (Snap K)
  | _, _, [] => []
  | a, n, s :: ss =>
    if a.point.coincides (s.point.getD a.point) then collapsed s a :: settledFrom a n ss
    else s.setNode n :: settledFrom (anchorAt a s n) (n + 1) ss

/-- The last anchor behind an anchor. -/
def lastAnchor : Anchor K → NodeId → List (Snap K) → Anchor K
  | a, _, [] => a
  | a, n, s :: ss =>
    if a.point.coincides (s.point.getD a.point) then lastAnchor a n ss
    else lastAnchor (anchorAt a s n) (n + 1) ss

/-- A chain with some stops at its end. -/
def withStops (c : Chain K) (stops : List (Stop K)) : Chain K :=
  { c with
    points := c.points ++ stops.map (·.point)
    parts := c.parts ++ stops.map (·.part) }

omit [Scalar K] in
theorem withStops_nil (c : Chain K) : withStops c [] = c := by simp [withStops]

omit [Scalar K] in
theorem withStops_cons (c : Chain K) (st : Stop K) (stops : List (Stop K)) :
    withStops c (st :: stops) = withStops (c.extend st.part st.point) stops := by
  simp [withStops, Chain.extend]

/-- An anchor is the last node of a chain that grows. -/
structure Anchored (o : Overlay K) (closest : DirectedEdge) (c : Chain K) (a : Anchor K) :
    Prop where
  growing : o.Growing c
  road : c.road = closest
  node : a.node = c.node o.firstNode c.points.length
  started : a.started = !c.points.isEmpty

/-- One more stop is the anchor of the chain that has it. -/
theorem Anchored.extend {closest : DirectedEdge} {o : Overlay K} {c : Chain K} {a : Anchor K}
    (h : Anchored o closest c a) (shape : Polyline K) (s : Snap K) :
    Anchored (o.pushStop closest a.node (partToSnap shape a s) (s.point.getD a.point) a.started)
      closest (c.extend (partToSnap shape a s) (s.point.getD a.point))
      (anchorAt a s (o.firstNode + o.nodeCount)) := by
  have hgrowing := h.growing.pushStop (partToSnap shape a s) (s.point.getD a.point)
  have hgrows := Overlay.grows_pushStop o closest a.node (partToSnap shape a s)
    (s.point.getD a.point) a.started
  rw [← h.started, ← h.node, h.road] at hgrowing
  refine ⟨hgrowing, h.road, ?_, ?_⟩
  · have hlast : c.points.length < (c.extend (partToSnap shape a s)
        (s.point.getD a.point)).points.length := by simp [Chain.extend]
    rw [hgrows.firstNode]
    simp only [Chain.extend, List.length_append, List.length_singleton]
    refine Eq.trans ?_ (Chain.node_virtual _ _ hlast).symm
    show o.firstNode + o.nodes.size = _
    rw [h.growing.nodes_size]
    rfl
  · simp [anchorAt, Chain.extend]

/-- **What the snaps of a road do**, one after the other. -/
structure Strung (closest : DirectedEdge) (shape : Polyline K) (c : Chain K) (a : Anchor K)
    (indices : List Nat) (ss : List (Snap K)) (w w' : Splicing K) (a' : Anchor K) : Prop where
  read : List.Forall₂ (fun i s => w.snaps[i]? = some s) indices ss
  same_base : ∀ s ∈ ss, ∃ own, s.closest = some own ∧ own.base = closest.base
  grows : Overlay.Grows w.overlay w'.overlay
  anchored : Anchored w'.overlay closest
    (withStops c (stopsFrom shape a (w.overlay.firstNode + w.overlay.nodeCount) ss)) a'
  anchor_eq : a' = lastAnchor a (w.overlay.firstNode + w.overlay.nodeCount) ss
  /-- Other snaps stay what they are. -/
  others : ∀ i, i ∉ indices → w'.snaps[i]? = w.snaps[i]?
  settled : List.Forall₂ (fun i s => w'.snaps[i]? = some s) indices
    (settledFrom a (w.overlay.firstNode + w.overlay.nodeCount) ss)
  /-- The snap of a stop knows its virtual node. -/
  placed : ∀ (j : Nat) st,
    (stopsFrom shape a (w.overlay.firstNode + w.overlay.nodeCount) ss)[j]? = some st →
      ∃ i ∈ indices, w.snaps[i]? = some st.snap ∧ w'.snaps[i]? =
        some (st.snap.setNode (w.overlay.firstNode + w.overlay.nodeCount + j))

omit [Scalar K] in
/-- Reading entries that are the same in another table. -/
theorem read_congr {xs ys : Array (Snap K)} {indices : List Nat} {ss : List (Snap K)}
    (h : ∀ i ∈ indices, xs[i]? = ys[i]?)
    (hread : List.Forall₂ (fun i s => xs[i]? = some s) indices ss) :
    List.Forall₂ (fun i s => ys[i]? = some s) indices ss := by
  induction hread with
  | nil => exact .nil
  | cons hi _ ih =>
    exact .cons ((h _ (by simp)).symm.trans hi) (ih fun i hi => h i (by simp [hi]))

/-- A snap at the spot of the anchor adds no stop. -/
theorem Strung.collapse {closest : DirectedEdge} {shape : Polyline K} {c : Chain K}
    {a a' : Anchor K} {i : Nat} {indices : List Nat} {s : Snap K} {ss : List (Snap K)}
    (hi : i ∉ indices) (hs : w.snaps[i]? = some s)
    (hbase : ∃ own, s.closest = some own ∧ own.base = closest.base)
    (hco : a.point.coincides (s.point.getD a.point) = true)
    (h : Strung closest shape c a indices ss
      { w with snaps := w.snaps.setIfInBounds i (collapsed s a) } w' a') :
    Strung closest shape c a (i :: indices) (s :: ss) w w' a' := by
  have hstops : ∀ n, stopsFrom shape a n (s :: ss) = stopsFrom shape a n ss := fun n => by
    rw [stopsFrom, if_pos hco]
  -- The snaps behind this one are still as they were.
  have hleft : ∀ j ∈ indices, (w.snaps.setIfInBounds i (collapsed s a))[j]? = w.snaps[j]? :=
    fun j hj => Array.getElem?_setIfInBounds_ne (by rintro rfl; exact hi hj)
  refine ⟨.cons hs (read_congr hleft h.read), ?_, h.grows, ?_, ?_, ?_, ?_, ?_⟩
  · simpa using ⟨hbase, h.same_base⟩
  · rw [hstops]
    exact h.anchored
  · rw [lastAnchor, if_pos hco]
    exact h.anchor_eq
  · intro j hj
    have hne : i ≠ j := fun heq => hj (by simp [heq])
    rw [h.others j fun hmem => hj (by simp [hmem])]
    exact Array.getElem?_setIfInBounds_ne hne
  · rw [settledFrom, if_pos hco]
    refine .cons ?_ h.settled
    rw [h.others i hi]
    exact Array.getElem?_setIfInBounds_self_of_lt (Array.getElem?_eq_some_iff.1 hs).1
  · rw [hstops]
    intro j st hst
    obtain ⟨i', hi', hread, hplaced⟩ := h.placed j st hst
    exact ⟨i', by simp [hi'], (hleft i' hi').symm.trans hread, hplaced⟩

/-- A snap elsewhere is the first stop, and the others are numbered behind it. -/
theorem Strung.stop {closest : DirectedEdge} {shape : Polyline K} {c : Chain K}
    {a a' : Anchor K} {i : Nat} {indices : List Nat} {s : Snap K} {ss : List (Snap K)}
    (hi : i ∉ indices) (hs : w.snaps[i]? = some s)
    (hbase : ∃ own, s.closest = some own ∧ own.base = closest.base)
    (hco : a.point.coincides (s.point.getD a.point) = false)
    (ha : Anchored w.overlay closest c a)
    (h : Strung closest shape (c.extend (partToSnap shape a s) (s.point.getD a.point))
      (anchorAt a s (w.overlay.firstNode + w.overlay.nodeCount)) indices ss
      { overlay := w.overlay.pushStop closest a.node (partToSnap shape a s)
          (s.point.getD a.point) a.started
        snaps := w.snaps.setIfInBounds i
          (s.setNode (w.overlay.firstNode + w.overlay.nodeCount)) } w' a') :
    Strung closest shape c a (i :: indices) (s :: ss) w w' a' := by
  have hext := ha.extend shape s
  have hgrows := Overlay.grows_pushStop w.overlay closest a.node (partToSnap shape a s)
    (s.point.getD a.point) a.started
  -- The stops behind this one are numbered from the next virtual node.
  have hnext : (w.overlay.pushStop closest a.node (partToSnap shape a s) (s.point.getD a.point)
      a.started).firstNode + (w.overlay.pushStop closest a.node (partToSnap shape a s)
        (s.point.getD a.point) a.started).nodeCount =
      w.overlay.firstNode + w.overlay.nodeCount + 1 := by
    have hsize := hext.growing.nodes_size
    have hsize' := ha.growing.nodes_size
    simp only [Chain.extend, List.length_append, List.length_singleton] at hsize
    rw [hgrows.firstNode, Overlay.nodeCount, Overlay.nodeCount, hsize, hsize']
    rfl
  have hstops : stopsFrom shape a (w.overlay.firstNode + w.overlay.nodeCount) (s :: ss) =
      ⟨s, s.point.getD a.point, partToSnap shape a s⟩ ::
        stopsFrom shape (anchorAt a s (w.overlay.firstNode + w.overlay.nodeCount))
          (w.overlay.firstNode + w.overlay.nodeCount + 1) ss := by
    rw [stopsFrom, if_neg (by simp [hco])]
  have hleft : ∀ j ∈ indices, (w.snaps.setIfInBounds i
      (s.setNode (w.overlay.firstNode + w.overlay.nodeCount)))[j]? = w.snaps[j]? :=
    fun j hj => Array.getElem?_setIfInBounds_ne (by rintro rfl; exact hi hj)
  -- The snap of this stop is not touched again.
  have hthis : w'.snaps[i]? = some (s.setNode (w.overlay.firstNode + w.overlay.nodeCount)) := by
    rw [h.others i hi]
    exact Array.getElem?_setIfInBounds_self_of_lt (Array.getElem?_eq_some_iff.1 hs).1
  refine ⟨.cons hs (read_congr hleft h.read), ?_, hgrows.trans h.grows, ?_, ?_, ?_, ?_, ?_⟩
  · simpa using ⟨hbase, h.same_base⟩
  · rw [hstops, withStops_cons, ← hnext]
    exact h.anchored
  · rw [lastAnchor, if_neg (by simp [hco]), ← hnext]
    exact h.anchor_eq
  · intro j hj
    have hne : i ≠ j := fun heq => hj (by simp [heq])
    rw [h.others j fun hmem => hj (by simp [hmem])]
    exact Array.getElem?_setIfInBounds_ne hne
  · rw [settledFrom, if_neg (by simp [hco]), ← hnext]
    exact .cons hthis h.settled
  · rw [hstops, ← hnext]
    intro j st hst
    cases j with
    | zero =>
      obtain rfl : _ = st := by simpa using hst
      exact ⟨i, by simp, hs, hthis⟩
    | succ j =>
      obtain ⟨i', hi', hread, hplaced⟩ := h.placed j st hst
      refine ⟨i', by simp [hi'], (hleft i' hi').symm.trans hread, hplaced.trans ?_⟩
      rw [hnext, Nat.add_right_comm]
      rfl

/-- **Linking the snaps of a road** strings them on the anchor. -/
theorem links_inv {closest : DirectedEdge} {shape : Polyline K} {indices : List Nat}
    {c : Chain K} {a a' : Anchor K} (hnodup : indices.Nodup)
    (ha : Anchored w.overlay closest c a)
    (h : Yields (indices.foldlM (link closest shape) a) w a' w') :
    ∃ ss, Strung closest shape c a indices ss w w' a' := by
  induction indices generalizing w c a with
  | nil =>
    obtain ⟨rfl, rfl⟩ := yields_pure.1 h
    exact ⟨[], .nil, by simp, .refl _, by simpa [stopsFrom, withStops_nil] using ha, rfl,
      fun _ _ => rfl, .nil, by simp [stopsFrom]⟩
  | cons i indices ih =>
    obtain ⟨hi, hnodup⟩ := List.nodup_cons.1 hnodup
    rw [List.foldlM_cons, yields_bind] at h
    obtain ⟨b, v, hlink, hrest⟩ := h
    obtain ⟨s, own, hs, hown, hbase, hcases⟩ := link_inv hlink
    have hbase' : ∃ own, s.closest = some own ∧ own.base = closest.base := ⟨own, hown, hbase⟩
    obtain ⟨hco, rfl, rfl⟩ | ⟨hco, rfl, rfl⟩ := hcases
    · -- The anchor and its chain stay for the rest.
      have ha' : Anchored ({ w with snaps := w.snaps.setIfInBounds i (collapsed s b) } :
          Splicing K).overlay closest c b := ha
      obtain ⟨ss, hss⟩ := ih hnodup ha' hrest
      exact ⟨s :: ss, hss.collapse hi hs hbase' hco⟩
    · obtain ⟨ss, hss⟩ := ih hnodup (ha.extend shape s) hrest
      exact ⟨s :: ss, hss.stop hi hs hbase' hco ha⟩

end RoadSplice.Splicing

/-
  RoadSplice.Proofs.Overlay.Stops — the stops of a road, in order, and the shapes between them.

  The snaps of a road come in the order of their way indexes, and on one segment in the order of
  their distances from its first point.  An anchor knows how far the shape has been used up, so
  the part to the next stop takes the points from there to the way index of the stop.  Put one
  after the other, the parts give the shape back, with the points of stops on segments inserted.
-/
import RoadSplice.Proofs.Geo.Distance
import RoadSplice.Proofs.Overlay.Build

namespace RoadSplice

/-! ## §1. Shapes with inserted points. -/

section

variable {K : Type} {shape : Polyline K} {s : Snap K} {ss : List (Snap K)} {i w : Nat}

/-- The points of the snaps on the segment behind a point of a shape. -/
def addedAt (ss : List (Snap K)) (i : Nat) : List (Point K) :=
  (ss.filter fun s => s.wayIndex = i ∧ s.position = .edge).filterMap (·.point)

/-- **A shape with the points of snaps inserted**: each of its points once and in order, and
behind it the points of the snaps on the segment that begins there. -/
def Polyline.withAdded (shape : Polyline K) (ss : List (Snap K)) : List (Point K) :=
  shape.points.zipIdx.flatMap fun (p, i) => p :: addedAt ss i

/-- What follows the point with a number. -/
def addedBehind (shape : Polyline K) (ss : List (Snap K)) (i : Nat) : List (Point K) :=
  addedAt ss i ++ (shape.points.zipIdx.drop (i + 1)).flatMap fun (p, i) => p :: addedAt ss i

theorem drop_zipIdx {p : Point K} (hp : shape.get? i = some p) :
    (shape.points.zipIdx.drop i).flatMap (fun (p, i) => p :: addedAt ss i) =
      p :: addedBehind shape ss i := by
  obtain ⟨hi, rfl⟩ := List.getElem?_eq_some_iff.1 hp
  have hlt : i < shape.points.zipIdx.length := by simpa using hi
  rw [List.drop_eq_getElem_cons hlt]
  simp [addedBehind]

theorem withAdded_eq {start : Point K} (hstart : shape.first? = some start) :
    shape.withAdded ss = start :: addedBehind shape ss 0 := by
  have hfirst : shape.get? 0 = some start := by
    rwa [Polyline.get?, ← List.head?_eq_getElem?]
  exact drop_zipIdx hfirst

theorem addedAt_of_ne (h : ∀ s ∈ ss, s.wayIndex ≠ i) : addedAt ss i = [] := by
  unfold addedAt
  rw [List.filter_eq_nil_iff.2 fun s hs => by simp [h s hs]]
  rfl

/-- Up to the first of the snaps nothing is inserted. -/
theorem addedBehind_slice (hi : i ≤ w) (hw : w < shape.length) (h : ∀ s ∈ ss, w ≤ s.wayIndex) :
    addedBehind shape ss i = shape.slice (i + 1) (w + 1) ++ addedBehind shape ss w := by
  induction hi using Nat.decreasingInduction with
  | self => simp [Polyline.slice]
  | of_succ i hi ih =>
    have hlt : i + 1 < shape.points.length := Nat.lt_of_le_of_lt hi hw
    have hget : shape.get? (i + 1) = some shape.points[i + 1] := List.getElem?_eq_getElem hlt
    have hnone : addedAt ss i = [] := addedAt_of_ne fun s hs => by
      have := h s hs
      omega
    have hslice : shape.slice (i + 1) (w + 1) =
        shape.points[i + 1] :: shape.slice (i + 1 + 1) (w + 1) := by
      unfold Polyline.slice
      rw [List.drop_eq_getElem_cons (by rw [List.length_take]; omega)]
      simp
    rw [addedBehind, hnone, List.nil_append, drop_zipIdx hget, ih, hslice]
    rfl

/-- The first snap comes directly behind the point of its way index. -/
theorem addedBehind_cons (hs : s.position ≠ .tower) {p : Point K} (hp : s.point = some p) :
    addedBehind shape (s :: ss) s.wayIndex =
      (if s.position = .pillar then [] else [p]) ++ addedBehind shape ss s.wayIndex := by
  have hlater : ∀ j, s.wayIndex < j → addedAt (s :: ss) j = addedAt ss j := fun j hj => by
    unfold addedAt
    rw [List.filter_cons_of_neg (by simp [Nat.ne_of_lt hj])]
  -- Behind later points the first snap adds nothing.
  have hrest : (shape.points.zipIdx.drop (s.wayIndex + 1)).flatMap
      (fun (p, i) => p :: addedAt (s :: ss) i) =
        (shape.points.zipIdx.drop (s.wayIndex + 1)).flatMap fun (p, i) => p :: addedAt ss i := by
    refine List.flatMap_congr fun q hq => ?_
    obtain ⟨j, hj⟩ := List.mem_iff_getElem?.1 hq
    rw [List.getElem?_drop, List.getElem?_zipIdx] at hj
    obtain ⟨x, -, rfl⟩ := Option.map_eq_some_iff.1 hj
    show x :: _ = x :: _
    rw [hlater _ (by omega)]
  unfold addedBehind
  rw [hrest, ← List.append_assoc]
  congr 1
  unfold addedAt
  cases hpos : s.position with
  | tower => exact absurd hpos hs
  | pillar =>
    rw [List.filter_cons_of_neg (by simp [hpos])]
    rfl
  | edge =>
    rw [List.filter_cons_of_pos (by simp [hpos])]
    simp [hp]

theorem addedBehind_nil : addedBehind shape [] i = shape.points.drop (i + 1) := by
  have hmap : ∀ l : List (Point K × Nat),
      l.flatMap (fun (p, i) => p :: addedAt [] i) = l.map (·.1) := fun l =>
    List.map_eq_flatMap.symm
  unfold addedBehind
  rw [hmap, List.map_drop, List.zipIdx_map_fst]
  rfl

end

variable {K : Type} [Scalar K]

open Scalar

namespace Splicing

variable {g : RoadGraph K} {shape : Polyline K} {s t : Snap K} {ss : List (Snap K)}

/-! ## §2. The order along a road. -/

theorem atOrBefore_iff {a b : Nat × K} :
    atOrBefore a b = true ↔ a.1 < b.1 ∨ (a.1 = b.1 ∧ (order a.2 b.2).isLE = true) := by
  unfold atOrBefore
  rcases Nat.lt_trichotomy a.1 b.1 with h | h | h
  · rw [Nat.compare_eq_lt.2 h]
    simp [h]
  · rw [Nat.compare_eq_eq.2 h]
    simp [h]
  · rw [Nat.compare_eq_gt.2 h]
    simp [Nat.lt_asymm h, Nat.ne_of_gt h]

theorem atOrBefore_trans [OrderedScalar K] (a b c : Nat × K) (hab : atOrBefore a b = true)
    (hbc : atOrBefore b c = true) : atOrBefore a c = true := by
  rw [atOrBefore_iff] at hab hbc ⊢
  rcases hab with hab | ⟨hab, hle⟩
  · rcases hbc with hbc | ⟨hbc, -⟩
    · exact .inl (Nat.lt_trans hab hbc)
    · exact .inl (hbc ▸ hab)
  · rcases hbc with hbc | ⟨hbc, hle'⟩
    · exact .inl (hab ▸ hbc)
    · exact .inr ⟨hab.trans hbc, OrderedScalar.order_trans _ _ _ hle hle'⟩

theorem atOrBefore_total [OrderedScalar K] (a b : Nat × K) :
    (atOrBefore a b || atOrBefore b a) = true := by
  rw [Bool.or_eq_true, atOrBefore_iff, atOrBefore_iff]
  rcases Nat.lt_trichotomy a.1 b.1 with h | h | h
  · exact .inl (.inl h)
  · rcases OrderedScalar.order_total a.2 b.2 with hle | hle
    · exact .inl (.inr ⟨h, hle⟩)
    · exact .inr (.inr ⟨h.symm, hle⟩)
  · exact .inr (.inl h)

/-- **A snap lies at or before another one** along a shape: its way index is smaller, or it is the
same and the snap is no farther from the point there. -/
def NotBehind (shape : Polyline K) (s t : Snap K) : Prop :=
  ∃ a b, along shape s = some a ∧ along shape t = some b ∧ atOrBefore a b = true

/-- Sorted snaps lie one behind the other. -/
theorem pairwise_notBehind [OrderedScalar K] {keyed : List ((Nat × K) × Nat)}
    (h : List.Forall₂ (fun k s => along shape s = some k.1)
      (keyed.mergeSort fun (a, _) (b, _) => atOrBefore a b) ss) :
    ss.Pairwise (NotBehind shape) := by
  have hsorted : (keyed.mergeSort fun (a, _) (b, _) => atOrBefore a b).Pairwise
      fun a b => atOrBefore a.1 b.1 = true :=
    List.pairwise_mergeSort (fun a b c => atOrBefore_trans a.1 b.1 c.1)
      (fun a b => atOrBefore_total a.1 b.1) keyed
  generalize (keyed.mergeSort fun (a, _) (b, _) => atOrBefore a b) = sorted at h hsorted
  induction h with
  | nil => exact .nil
  | @cons k s keys ss hk hks ih =>
    obtain ⟨hfirst, hrest⟩ := List.pairwise_cons.1 hsorted
    refine List.pairwise_cons.2 ⟨fun t ht => ?_, ih hrest⟩
    obtain ⟨l, hl, htl⟩ := exists_left hks ht
    exact ⟨k.1, l.1, hk, htl, hfirst l hl⟩

theorem NotBehind.wayIndex_le (h : NotBehind shape s t) : s.wayIndex ≤ t.wayIndex := by
  obtain ⟨a, b, ha, hb, hab⟩ := h
  unfold along at ha hb
  obtain ⟨p, -, ha⟩ := Option.bind_eq_some_iff.1 ha
  obtain ⟨q, -, hb⟩ := Option.bind_eq_some_iff.1 hb
  obtain rfl : (s.wayIndex, _) = a := Option.some.inj ha
  obtain rfl : (t.wayIndex, _) = b := Option.some.inj hb
  rcases atOrBefore_iff.1 hab with hlt | ⟨heq, -⟩
  · exact Nat.le_of_lt hlt
  · exact Nat.le_of_eq heq

/-! ## §3. Snaps between the ends of a shape. -/

/-- **A snap rests on a shape**: before its last point, and where it is at an inner point, exactly
there. -/
structure RestsOn (shape : Polyline K) (s : Snap K) : Prop where
  not_tower : s.position ≠ .tower
  exists_point : ∃ p, s.point = some p
  before_end : s.wayIndex + 1 < shape.length
  pillar : s.position = .pillar →
    0 < s.wayIndex ∧ ∃ p, shape.get? s.wayIndex = some p ∧ s.point = some p ∧ Geo.Separates p

/-- A snap behind an anchor: the way to it has not been used up. -/
structure Ahead (a : Anchor K) (s : Snap K) : Prop where
  next_le : a.next ≤ s.wayIndex + 1
  pillar : s.position = .pillar → a.point.coincides (s.point.getD a.point) = false →
    a.next ≤ s.wayIndex

theorem RestsOn.ahead_base (h : RestsOn shape s) (closest : DirectedEdge) (start : Point K) :
    Ahead (baseAnchor closest start) s :=
  ⟨Nat.succ_le_succ (Nat.zero_le _), fun hpos _ => (h.pillar hpos).1⟩

/-- **A snap lies on a shape**: it has a point, and where it is at an inner point, exactly there. -/
structure LiesOn (shape : Polyline K) (s : Snap K) : Prop where
  exists_point : ∃ p, s.point = some p
  pillar : s.position = .pillar →
    ∃ p, shape.get? s.wayIndex = some p ∧ s.point = some p ∧ Geo.Separates p

theorem RestsOn.liesOn (h : RestsOn shape s) : LiesOn shape s :=
  ⟨h.exists_point, fun hpos => (h.pillar hpos).2⟩

/-- **An anchor reaches a snap** at an inner point: the shape has not been used up before the point,
or the anchor lies there. -/
def Reaches (a : Anchor K) (s : Snap K) : Prop :=
  s.position = .pillar → a.point.coincides (s.point.getD a.point) = false →
    a.next ≤ s.wayIndex ∨ s.point = some a.point

theorem LiesOn.reaches_base (h : LiesOn shape s) (closest : DirectedEdge) {start : Point K}
    (hstart : shape.first? = some start) : Reaches (baseAnchor closest start) s := by
  intro hpos _
  obtain ⟨p, hp, hps, -⟩ := h.pillar hpos
  rcases Nat.eq_zero_or_pos s.wayIndex with hzero | hpos
  · rw [hzero, Polyline.get?, ← List.head?_eq_getElem?] at hp
    exact .inr (hps.trans (hp.symm.trans hstart))
  · exact .inl hpos

/-- **Behind a stop** come the snaps at or behind it.  One at the inner point of its segment is no
farther from that point than the stop, so it would be at the same spot. -/
theorem NotBehind.wayIndex_lt (h : NotBehind shape s t) (hs : LiesOn shape s) (ht : LiesOn shape t)
    (hpos : t.position = .pillar) (a : Anchor K) (n : NodeId)
    (hco : (anchorAt a s n).point.coincides (t.point.getD (anchorAt a s n).point) = false) :
    s.wayIndex < t.wayIndex := by
  obtain ⟨p, hp⟩ := hs.exists_point
  obtain ⟨q, hq, hqt, hsep⟩ := ht.pillar hpos
  refine Nat.lt_of_le_of_ne h.wayIndex_le fun heq => ?_
  obtain ⟨k, l, hk, hl, hkl⟩ := h
  have hlt : t.wayIndex < shape.length := (List.getElem?_eq_some_iff.1 hq).1
  have hmin : min t.wayIndex (shape.length - 1) = t.wayIndex :=
    Nat.min_eq_left (Nat.le_sub_one_of_lt hlt)
  unfold along at hk hl
  rw [heq, hmin, hq] at hk
  rw [hmin, hq] at hl
  obtain rfl : (t.wayIndex, _) = k := Option.some.inj hk
  obtain rfl : (t.wayIndex, _) = l := Option.some.inj hl
  rw [hp, hqt] at hkl
  rcases atOrBefore_iff.1 hkl with hlt | ⟨-, hle⟩
  · exact Nat.lt_irrefl _ hlt
  · have hsame : p.coincides q = true := hsep p hle
    have hapart : p.coincides q = false := by
      simpa [anchorAt, hp, hqt] using hco
    rw [hsame] at hapart
    cases hapart

theorem NotBehind.ahead (h : NotBehind shape s t) (hs : RestsOn shape s) (ht : RestsOn shape t)
    (a : Anchor K) (n : NodeId) : Ahead (anchorAt a s n) t :=
  ⟨Nat.succ_le_succ h.wayIndex_le, fun hpos hco =>
    h.wayIndex_lt hs.liesOn ht.liesOn hpos a n hco⟩

theorem NotBehind.reaches (h : NotBehind shape s t) (hs : LiesOn shape s) (ht : LiesOn shape t)
    (a : Anchor K) (n : NodeId) : Reaches (anchorAt a s n) t := fun hpos hco =>
  .inl (h.wayIndex_lt hs ht hpos a n hco)

/-! ## §4. The shape of a part. -/

omit [Scalar K] in
/-- The points of a part, as long as the shape has not been used up. -/
theorem pieceShape_points {a : Anchor K} {w : Nat} (hw : w + 1 ≤ shape.length)
    (hnext : a.next ≤ w + 1) (isPillar : Bool) (point : Point K) :
    (pieceShape shape a isPillar point w).points =
      a.point :: (shape.slice a.next (w + 1) ++ (if isPillar then [] else [point])) := by
  unfold pieceShape
  simp only [Nat.min_eq_left hw, Nat.min_eq_left hnext, List.cons_append]

/-- **A part leads from its anchor to its stop.** -/
theorem partToSnap_ends {a : Anchor K} (hs : LiesOn shape s) (ha : Reaches a s)
    (hco : a.point.coincides (s.point.getD a.point) = false) :
    (partToSnap shape a s).shape.points.head? = some a.point ∧
      (partToSnap shape a s).shape.points.getLast? = some (s.point.getD a.point) := by
  unfold partToSnap partTo pieceShape
  refine ⟨rfl, ?_⟩
  by_cases hpos : s.position = .pillar
  · -- The part ends at the inner point itself, which the anchor has not passed or is at.
    obtain ⟨p, hp, hps, -⟩ := hs.pillar hpos
    have hlt : s.wayIndex < shape.points.length := (List.getElem?_eq_some_iff.1 hp).1
    have hstop : min (s.wayIndex + 1) shape.length = s.wayIndex + 1 := Nat.min_eq_left hlt
    simp only [hpos, decide_true, ↓reduceIte, List.append_nil, hps, Option.getD_some, hstop]
    rcases Nat.lt_or_ge s.wayIndex a.next with hpassed | hnext
    · obtain rfl : p = a.point := by
        refine Option.some.inj (hps.symm.trans ((ha hpos hco).resolve_left ?_))
        exact Nat.not_le.2 hpassed
      have hempty : shape.slice (min a.next (s.wayIndex + 1)) (s.wayIndex + 1) = [] := by
        rw [Nat.min_eq_right hpassed]
        simp [Polyline.slice]
      rw [hempty]
      rfl
    · have hlast : shape.slice (min a.next (s.wayIndex + 1)) (s.wayIndex + 1) =
          shape.slice a.next s.wayIndex ++ [p] := by
        rw [Nat.min_eq_left (Nat.le_succ_of_le hnext)]
        unfold Polyline.slice
        have hget : shape.points[s.wayIndex] = p := by
          simpa [Polyline.get?, List.getElem?_eq_getElem hlt] using hp
        rw [List.take_add_one, List.getElem?_eq_getElem hlt, hget, Option.toList_some,
          List.drop_append_of_le_length]
        simpa [Nat.min_eq_left (Nat.le_of_lt hlt)] using hnext
      rw [hlast, ← List.cons_append]
      exact List.getLast?_concat
  · simp only [hpos, decide_false, Bool.false_eq_true, ↓reduceIte]
    exact List.getLast?_concat

/-! ## §5. The stops behind an anchor. -/

/-- **Snaps in order behind an anchor.** -/
structure InOrder (shape : Polyline K) (a : Anchor K) (ss : List (Snap K)) : Prop where
  rests : ∀ s ∈ ss, RestsOn shape s
  sorted : ss.Pairwise (NotBehind shape)
  ahead : ∀ s ∈ ss, Ahead a s

variable {a : Anchor K} {n : NodeId}

/-- A snap at the spot of the anchor is passed over. -/
theorem InOrder.skip (h : InOrder shape a (s :: ss)) : InOrder shape a ss where
  rests t ht := h.rests t (by simp [ht])
  sorted := h.sorted.of_cons
  ahead t ht := h.ahead t (by simp [ht])

/-- Any other snap becomes the anchor of those behind it. -/
theorem InOrder.step (h : InOrder shape a (s :: ss)) (n : NodeId) :
    InOrder shape (anchorAt a s n) ss where
  rests t ht := h.rests t (by simp [ht])
  sorted := h.sorted.of_cons
  ahead t ht := (List.rel_of_pairwise_cons h.sorted ht).ahead (h.rests s (by simp))
    (h.rests t (by simp [ht])) a n

/-- **Snaps on a shape, in order, that an anchor reaches**: all that the ends of parts depend on. -/
structure Drawn (shape : Polyline K) (a : Anchor K) (ss : List (Snap K)) : Prop where
  lies : ∀ s ∈ ss, LiesOn shape s
  sorted : ss.Pairwise (NotBehind shape)
  reaches : ∀ s ∈ ss, Reaches a s

theorem InOrder.drawn (h : InOrder shape a ss) : Drawn shape a ss :=
  ⟨fun s hs => (h.rests s hs).liesOn, h.sorted, fun s hs hpos hco =>
    .inl ((h.ahead s hs).pillar hpos hco)⟩

theorem Drawn.skip (h : Drawn shape a (s :: ss)) : Drawn shape a ss where
  lies t ht := h.lies t (by simp [ht])
  sorted := h.sorted.of_cons
  reaches t ht := h.reaches t (by simp [ht])

theorem Drawn.step (h : Drawn shape a (s :: ss)) (n : NodeId) :
    Drawn shape (anchorAt a s n) ss where
  lies t ht := h.lies t (by simp [ht])
  sorted := h.sorted.of_cons
  reaches t ht := (List.rel_of_pairwise_cons h.sorted ht).reaches (h.lies s (by simp))
    (h.lies t (by simp [ht])) a n

/-- The snaps of the stops are some of the snaps, in their order. -/
theorem stops_sublist (shape : Polyline K) (a : Anchor K) (n : NodeId) (ss : List (Snap K)) :
    ((stopsFrom shape a n ss).map (·.snap)).Sublist ss := by
  induction ss generalizing a n with
  | nil => exact List.Sublist.refl _
  | cons s ss ih =>
    unfold stopsFrom
    split
    · exact (ih a n).cons s
    · exact (ih _ _).cons_cons s

/-- The point of a stop is that of its snap. -/
theorem stops_point (h : InOrder shape a ss) {st : Stop K} (hst : st ∈ stopsFrom shape a n ss) :
    st.snap.point = some st.point := by
  induction ss generalizing a n with
  | nil => simp [stopsFrom] at hst
  | cons s ss ih =>
    unfold stopsFrom at hst
    split at hst
    · exact ih h.skip hst
    · rcases List.mem_cons.1 hst with rfl | hst
      · obtain ⟨p, hp⟩ := (h.rests s (by simp)).exists_point
        simp [hp]
      · exact ih (h.step n) hst

/-- **Each part leads from the stop before it to its own.** -/
theorem stops_ends (h : Drawn shape a ss) {j : Nat} {st : Stop K}
    (hst : (stopsFrom shape a n ss)[j]? = some st) :
    st.part.shape.points.head? = (a.point :: (stopsFrom shape a n ss).map (·.point))[j]? ∧
      st.part.shape.points.getLast? = some st.point := by
  induction ss generalizing a n j with
  | nil => simp [stopsFrom] at hst
  | cons s ss ih =>
    unfold stopsFrom at hst ⊢
    split at hst
    · rename_i hco
      rw [if_pos hco]
      exact ih h.skip hst
    · rename_i hco
      rw [if_neg hco]
      cases j with
      | zero =>
        obtain rfl := Option.some.inj hst
        exact partToSnap_ends (h.lies s (by simp)) (h.reaches s (by simp)) (by simpa using hco)
      | succ j => exact ih (h.step n) hst

/-- The last anchor is at the last stop. -/
theorem lastAnchor_point (shape : Polyline K) (a : Anchor K) (n : NodeId) (ss : List (Snap K)) :
    some (lastAnchor a n ss).point =
      (a.point :: (stopsFrom shape a n ss).map (·.point))[(stopsFrom shape a n ss).length]? := by
  induction ss generalizing a n with
  | nil => rfl
  | cons s ss ih =>
    unfold stopsFrom lastAnchor
    split
    · exact ih a n
    · exact ih _ _

/-- The last anchor leaves the last point of the shape to come. -/
theorem lastAnchor_next (h : InOrder shape a ss) (hnext : a.next < shape.length) :
    (lastAnchor a n ss).next < shape.length := by
  induction ss generalizing a n with
  | nil => exact hnext
  | cons s ss ih =>
    unfold lastAnchor
    split
    · exact ih h.skip hnext
    · exact ih (h.step n) (h.rests s (by simp)).before_end

/-- **The parts use up the shape**: behind their first points they hold the points between the
anchor and the last stop, and those of the stops on segments. -/
theorem stops_tails (h : InOrder shape a ss) {i : Nat} (hnext : a.next = i + 1) :
    (stopsFrom shape a n ss).flatMap (·.part.shape.points.tail) ++
        shape.points.drop (lastAnchor a n ss).next =
      addedBehind shape ((stopsFrom shape a n ss).map (·.snap)) i := by
  induction ss generalizing a n i with
  | nil =>
    show [] ++ shape.points.drop a.next = addedBehind shape [] i
    rw [addedBehind_nil, hnext]
    rfl
  | cons s ss ih =>
    unfold stopsFrom lastAnchor
    split
    · exact ih h.skip hnext
    · have hrests := h.rests s (by simp)
      have hnext_le := (h.ahead s (by simp)).next_le
      obtain ⟨p, hp⟩ := hrests.exists_point
      -- No stop has a smaller way index than the first one.
      have hle : ∀ t ∈ s :: (stopsFrom shape (anchorAt a s n) (n + 1) ss).map (·.snap),
          s.wayIndex ≤ t.wayIndex := by
        intro t ht
        rcases List.mem_cons.1 ht with rfl | ht
        · exact Nat.le_refl _
        · exact (List.rel_of_pairwise_cons h.sorted ((stops_sublist _ _ _ _).subset ht)).wayIndex_le
      have htail : (partToSnap shape a s).shape.points.tail =
          shape.slice (i + 1) (s.wayIndex + 1) ++ (if s.position = .pillar then [] else [p]) := by
        unfold partToSnap partTo
        rw [pieceShape_points (Nat.le_of_lt hrests.before_end) hnext_le, hnext, hp]
        simp
      rw [List.map_cons, addedBehind_slice (by omega) (Nat.lt_of_succ_lt hrests.before_end) hle,
        addedBehind_cons hrests.not_tower hp, ← ih (h.step n) rfl, List.flatMap_cons, htail]
      simp

end Splicing

end RoadSplice

/-
  RoadSplice.Proofs.Overlay.Settled — snaps that have been settled, settled once more.

  A snap that has been settled lies at its anchor: it has the anchor's way index, position and point.
  Snaps that ended at the base node are at a tower now and are not looked at again.  The others come
  to their anchors in the order of the road, so settling them once more finds the same anchors: the
  first snap at each of them becomes the stop that it was, and the others take that over.
-/
import RoadSplice.Proofs.Overlay.Ends

namespace RoadSplice.Splicing

variable {K : Type} [Scalar K] {shape : Polyline K} {s t u : Snap K} {ss : List (Snap K)}
  {a : Anchor K} {n : NodeId}

/-! ## §1. The place of an anchor. -/

/-- **The place of an anchor**, as that of a snap there. -/
def Anchor.bare (a : Anchor K) : Snap K :=
  { Snap.unplaced (.flat Scalar.nan Scalar.nan) with
    wayIndex := a.place.1
    position := a.place.2
    point := some a.point }

theorem bare_collapsed (s : Snap K) (a : Anchor K) : (collapsed s a).bare = a.bare := rfl

theorem bare_renumbered (a : Anchor K) (f : NodeId → NodeId) : (a.renumbered f).bare = a.bare := rfl

/-- A stop and its anchor are at one place. -/
theorem bare_anchorAt (hpoint : ∃ p, s.point = some p) (a : Anchor K) (n : NodeId) :
    (anchorAt a s n).bare = s.bare := by
  obtain ⟨p, hp⟩ := hpoint
  unfold Anchor.bare Snap.bare anchorAt
  rw [hp]
  rfl

omit [Scalar K] in
/-- A number for the stop leaves its anchor as it is. -/
theorem anchorAt_setNode (a : Anchor K) (s : Snap K) (n m : NodeId) :
    anchorAt a (s.setNode m) n = anchorAt a s n := rfl

/-! ## §2. One snap after another. -/

/-- **A snap follows another one** on a road: it is not before it; and if it is not behind it either,
the two are at one spot. -/
def Follows (shape : Polyline K) (s t : Snap K) : Prop :=
  NotBehind shape s t ∧ (NotBehind shape t s →
    ∀ p q, s.point = some p → t.point = some q → p.coincides q = true)

/-- **Snaps along a road**: each lies between the ends at a point that coincides with itself, and
each follows those before it. -/
structure Lined (shape : Polyline K) (ss : List (Snap K)) : Prop where
  not_tower : ∀ s ∈ ss, s.position ≠ .tower
  spots : ∀ s ∈ ss, ∃ p, s.point = some p ∧ p.coincides p = true
  sorted : ss.Pairwise (Follows shape)

theorem Lined.exists_point (h : Lined shape ss) (hs : s ∈ ss) : ∃ p, s.point = some p := by
  obtain ⟨p, hp, -⟩ := h.spots s hs
  exact ⟨p, hp⟩

theorem Lined.tail (h : Lined shape (s :: ss)) : Lined shape ss where
  not_tower t ht := h.not_tower t (List.mem_cons_of_mem _ ht)
  spots t ht := h.spots t (List.mem_cons_of_mem _ ht)
  sorted := h.sorted.of_cons

theorem NotBehind.trans [OrderedScalar K] (h : NotBehind shape s t) (h' : NotBehind shape t u) :
    NotBehind shape s u := by
  obtain ⟨k, l, hk, hl, hkl⟩ := h
  obtain ⟨l', m, hl', hm, hlm⟩ := h'
  obtain rfl : l = l' := Option.some.inj (hl.symm.trans hl')
  exact ⟨k, m, hk, hm, atOrBefore_trans _ _ _ hkl hlm⟩

theorem NotBehind.refl [OrderedScalar K] (h : NotBehind shape s t) : NotBehind shape s s := by
  obtain ⟨k, -, hk, -, -⟩ := h
  have hself : atOrBefore k k = true := by simpa using atOrBefore_total k k
  exact ⟨k, k, hk, hk, hself⟩

/-- Only the places of two snaps decide which of them comes first. -/
theorem NotBehind.congr {s' t' : Snap K} (h : NotBehind shape s t) (hs : s.bare = s'.bare)
    (ht : t.bare = t'.bare) : NotBehind shape s' t' := by
  obtain ⟨k, l, hk, hl, hkl⟩ := h
  exact ⟨k, l, (along_congr hs).symm.trans hk, (along_congr ht).symm.trans hl, hkl⟩

theorem Precedes.congr {s' t' : Snap K} (h : Precedes shape s t) (hs : s.bare = s'.bare)
    (ht : t.bare = t'.bare) : Precedes shape s' t' := by
  refine ⟨h.1.congr hs ht, fun hback => ?_⟩
  obtain ⟨hbare, hspot⟩ := h.2 (hback.congr ht.symm hs.symm)
  refine ⟨hs.symm.trans (hbare.trans ht), fun p hp => hspot p ?_⟩
  exact (Snap.bare_eq_iff.1 hs).2.2.trans hp

/-- A snap that becomes a stop is behind the anchor before it, not level with it. -/
theorem not_notBehind_of_stop (hfollows : Follows shape a.bare s) (hpoint : ∃ p, s.point = some p)
    (hco : ¬ a.point.coincides (s.point.getD a.point) = true) : ¬ NotBehind shape s a.bare := by
  intro hback
  obtain ⟨p, hp⟩ := hpoint
  apply hco
  rw [hp]
  exact hfollows.2 hback a.point p rfl hp

/-! ## §3. What is left on the road. -/

/-- **The settled snaps that are not at a tower**: those at which a road is cut. -/
def remaining (a : Anchor K) (n : NodeId) (ss : List (Snap K)) : List (Snap K) :=
  (settledFrom a n ss).filter fun t => t.position ≠ .tower

/-- A snap at the spot of the base node is not looked at again. -/
theorem remaining_tower (hco : a.point.coincides (s.point.getD a.point) = true)
    (htower : a.place.2 = .tower) : remaining a n (s :: ss) = remaining a n ss := by
  have hposition : (collapsed s a).position = .tower := htower
  unfold remaining
  rw [settledFrom, if_pos hco, List.filter_cons_of_neg (by simp [hposition])]

theorem remaining_collapsed (hco : a.point.coincides (s.point.getD a.point) = true)
    (htower : a.place.2 ≠ .tower) :
    remaining a n (s :: ss) = collapsed s a :: remaining a n ss := by
  have hposition : (collapsed s a).position ≠ .tower := htower
  unfold remaining
  rw [settledFrom, if_pos hco, List.filter_cons_of_pos (by simp [hposition])]

theorem remaining_stop (hco : ¬ a.point.coincides (s.point.getD a.point) = true)
    (hpos : s.position ≠ .tower) :
    remaining a n (s :: ss) = s.setNode n :: remaining (anchorAt a s n) (n + 1) ss := by
  have hposition : (s.setNode n).position ≠ .tower := hpos
  unfold remaining
  rw [settledFrom, if_neg hco, List.filter_cons_of_pos (by simp [hposition])]

/-- **Settling once more**: the same stops with the same parts, the same last anchor, and every snap
ends at the anchor at which it is. -/
theorem settled_again (shape : Polyline K) (hpos : ∀ s ∈ ss, s.position ≠ .tower)
    (hspots : ∀ s ∈ ss, ∃ p, s.point = some p ∧ p.coincides p = true)
    (ha : a.place.2 ≠ .tower → a.point.coincides a.point = true) :
    (stopsFrom shape a n (remaining a n ss)).map (fun st => (st.point, st.part)) =
        (stopsFrom shape a n ss).map (fun st => (st.point, st.part)) ∧
      lastAnchor a n (remaining a n ss) = lastAnchor a n ss ∧
      ∀ x ∈ endsFrom a n (remaining a n ss), x.1.bare = x.2.bare ∧ x.1.node = some x.2.node := by
  induction ss generalizing a n with
  | nil =>
    refine ⟨rfl, rfl, ?_⟩
    intro x hx
    cases hx
  | cons s ss ih =>
    have hpos' : ∀ t ∈ ss, t.position ≠ .tower := fun t ht => hpos t (List.mem_cons_of_mem _ ht)
    have hspots' : ∀ t ∈ ss, ∃ p, t.point = some p ∧ p.coincides p = true :=
      fun t ht => hspots t (List.mem_cons_of_mem _ ht)
    by_cases hco : a.point.coincides (s.point.getD a.point) = true
    · obtain ⟨hstops, hlast, hends⟩ := ih (a := a) (n := n) hpos' hspots' ha
      have hpassed : stopsFrom shape a n (s :: ss) = stopsFrom shape a n ss := by
        rw [stopsFrom, if_pos hco]
      have hkept : lastAnchor a n (s :: ss) = lastAnchor a n ss := by
        rw [lastAnchor, if_pos hco]
      by_cases htower : a.place.2 = .tower
      · rw [remaining_tower hco htower, hpassed, hkept]
        exact ⟨hstops, hlast, hends⟩
      · -- The snap has the point of the anchor now, which coincides with itself.
        have hagain : a.point.coincides ((collapsed s a).point.getD a.point) = true := ha htower
        rw [remaining_collapsed hco htower, hpassed, hkept]
        rw [stopsFrom, if_pos hagain, lastAnchor, if_pos hagain, endsFrom, if_pos hagain]
        refine ⟨hstops, hlast, ?_⟩
        intro x hx
        rcases List.mem_cons.1 hx with rfl | hx
        · exact ⟨rfl, rfl⟩
        · exact hends x hx
    · have hnext : (anchorAt a s n).place.2 ≠ .tower →
          (anchorAt a s n).point.coincides (anchorAt a s n).point = true := by
        intro _
        obtain ⟨p, hp, hspot⟩ := hspots s List.mem_cons_self
        show (s.point.getD a.point).coincides (s.point.getD a.point) = true
        rw [hp]
        exact hspot
      obtain ⟨hstops, hlast, hends⟩ := ih (a := anchorAt a s n) (n := n + 1) hpos' hspots' hnext
      have hagain : ¬ a.point.coincides ((s.setNode n).point.getD a.point) = true := hco
      rw [remaining_stop hco (hpos s List.mem_cons_self)]
      unfold stopsFrom lastAnchor endsFrom
      rw [if_neg hco, if_neg hco, if_neg hagain, if_neg hagain, if_neg hagain, anchorAt_setNode,
        List.map_cons, List.map_cons, hstops]
      refine ⟨rfl, hlast, ?_⟩
      intro x hx
      rcases List.mem_cons.1 hx with rfl | hx
      · obtain ⟨p, hp, -⟩ := hspots s List.mem_cons_self
        exact ⟨(bare_anchorAt ⟨p, hp⟩ a n).symm, rfl⟩
      · exact hends x hx

/-- **What is left on the road** is in order, and what is level there is at one place. -/
theorem Lined.precedes_remaining [OrderedScalar K] (h : Lined shape ss)
    (ha : a.place.2 ≠ .tower →
      a.point.coincides a.point = true ∧ ∀ s ∈ ss, Follows shape a.bare s) :
    (remaining a n ss).Pairwise (Precedes shape) ∧
      (a.place.2 ≠ .tower → ∀ t ∈ remaining a n ss, Precedes shape a.bare t) := by
  induction ss generalizing a n with
  | nil =>
    refine ⟨.nil, fun _ t ht => ?_⟩
    cases ht
  | cons s ss ih =>
    have hpoint := h.exists_point (List.mem_cons_self (a := s))
    by_cases hco : a.point.coincides (s.point.getD a.point) = true
    · have ha' : a.place.2 ≠ .tower →
          a.point.coincides a.point = true ∧ ∀ t ∈ ss, Follows shape a.bare t := by
        intro htower
        obtain ⟨hspot, hfollows⟩ := ha htower
        exact ⟨hspot, fun t ht => hfollows t (List.mem_cons_of_mem _ ht)⟩
      obtain ⟨hsorted, hbehind⟩ := ih (a := a) (n := n) h.tail ha'
      by_cases htower : a.place.2 = .tower
      · rw [remaining_tower hco htower]
        exact ⟨hsorted, hbehind⟩
      · rw [remaining_collapsed hco htower]
        obtain ⟨hspot, hfollows⟩ := ha htower
        have hself : Precedes shape a.bare (collapsed s a) := by
          refine ⟨(hfollows s List.mem_cons_self).1.refl.congr rfl (bare_collapsed s a).symm,
            fun _ => ⟨rfl, fun p hp => ?_⟩⟩
          obtain rfl : a.point = p := Option.some.inj hp
          exact hspot
        refine ⟨List.pairwise_cons.2 ⟨fun t ht => ?_, hsorted⟩, fun _ t ht => ?_⟩
        · exact (hbehind htower t ht).congr (bare_collapsed s a).symm rfl
        · rcases List.mem_cons.1 ht with rfl | ht
          · exact hself
          · exact hbehind htower t ht
    · -- The stop is the anchor of those behind it, and they follow it.
      have hbare := bare_anchorAt hpoint a n
      have hnext : (anchorAt a s n).place.2 ≠ .tower →
          (anchorAt a s n).point.coincides (anchorAt a s n).point = true ∧
            ∀ t ∈ ss, Follows shape (anchorAt a s n).bare t := by
        intro _
        obtain ⟨p, hp, hspot⟩ := h.spots s List.mem_cons_self
        refine ⟨?_, fun t ht => ?_⟩
        · show (s.point.getD a.point).coincides (s.point.getD a.point) = true
          rw [hp]
          exact hspot
        · obtain ⟨hle, htied⟩ := List.rel_of_pairwise_cons h.sorted ht
          refine ⟨hle.congr hbare.symm rfl, fun hback p q hp hq => ?_⟩
          exact htied (hback.congr rfl hbare) p q ((congrArg Snap.point hbare).symm.trans hp) hq
      have hpos := h.not_tower s List.mem_cons_self
      obtain ⟨hsorted, hbehind⟩ := ih (a := anchorAt a s n) (n := n + 1) h.tail hnext
      rw [remaining_stop hco hpos]
      have hbehind' : ∀ t ∈ remaining (anchorAt a s n) (n + 1) ss, Precedes shape s t :=
        fun t ht => (hbehind hpos t ht).congr hbare rfl
      refine ⟨List.pairwise_cons.2 ⟨fun t ht => (hbehind' t ht).congr rfl rfl, hsorted⟩,
        fun htower t ht => ?_⟩
      -- What is behind the stop is not level with the anchor before it either.
      have hfollows := (ha htower).2 s List.mem_cons_self
      have hapart := not_notBehind_of_stop hfollows hpoint hco
      rcases List.mem_cons.1 ht with rfl | ht
      · exact ⟨hfollows.1.congr rfl rfl, fun hback => absurd (hback.congr rfl rfl) hapart⟩
      · have hle := (hbehind' t ht).1
        exact ⟨hfollows.1.trans hle, fun hback => absurd (hle.trans hback) hapart⟩

/-! ## §4. Settled snaps and their ends. -/

/-- **A snap has ended** at its anchor: it is at its place, on the road on which it was. -/
structure EndedAt (t : Snap K) (x : Snap K × Anchor K) : Prop where
  closest : t.closest = x.1.closest
  bare : t.bare = x.2.bare
  node : t.node = some x.2.node

theorem EndedAt.point {x : Snap K × Anchor K} (h : EndedAt t x) : t.point = some x.2.point :=
  congrArg Snap.point h.bare

/-- **Every settled snap** has ended at the anchor of its end. -/
theorem ended_settledFrom (hpoints : ∀ s ∈ ss, ∃ p, s.point = some p) :
    List.Forall₂ EndedAt (settledFrom a n ss) (endsFrom a n ss) := by
  induction ss generalizing a n with
  | nil => exact .nil
  | cons s ss ih =>
    have hpoints' : ∀ t ∈ ss, ∃ p, t.point = some p :=
      fun t ht => hpoints t (List.mem_cons_of_mem _ ht)
    unfold settledFrom endsFrom
    split
    · exact .cons ⟨rfl, rfl, rfl⟩ (ih hpoints')
    · refine .cons ⟨rfl, ?_, rfl⟩ (ih hpoints')
      exact (bare_anchorAt (hpoints s List.mem_cons_self) a n).symm

/-- What is left of a line is there because a snap became a stop. -/
theorem remaining_ne_nil (hpos : ∀ s ∈ ss, s.position ≠ .tower)
    (hspots : ∀ s ∈ ss, ∃ p, s.point = some p ∧ p.coincides p = true)
    (ha : a.place.2 ≠ .tower → a.point.coincides a.point = true)
    (hstops : stopsFrom shape a n ss ≠ []) : remaining a n ss ≠ [] := by
  intro hnil
  obtain ⟨hagain, -⟩ := settled_again shape (n := n) hpos hspots ha
  rw [hnil] at hagain
  exact hstops (List.map_eq_nil_iff.1 hagain.symm)

/-- **Other snaps at the places of what is left** end where that is, but for the numbers of the
nodes. -/
theorem Lined.end_again [OrderedScalar K] (h : Lined shape ss) (htower : a.place.2 = .tower)
    {ss' : List (Snap K)} {f : NodeId → NodeId} {n' : NodeId} (hf : ∀ j, f (n + j) = n' + j)
    (hbare : ss'.map Snap.bare = (remaining a n ss).map Snap.bare) {x : Snap K × Anchor K}
    (hx : x ∈ endsFrom (a.renumbered f) n' ss') (ht : t ∈ remaining a n ss)
    (hplace : x.1.bare = t.bare) :
    ∃ z ∈ endsFrom a n (remaining a n ss), EndedAt t z ∧ x.2 = z.2.renumbered f := by
  have ha : ∀ {P : Prop}, a.place.2 ≠ .tower → P := fun hne => absurd htower hne
  obtain ⟨-, -, hends⟩ := settled_again shape (n := n) h.not_tower h.spots ha
  obtain ⟨hsorted, -⟩ := h.precedes_remaining (n := n) ha
  -- What is left has points, since it is at its anchors.
  have hmem : ∀ s ∈ remaining a n ss, ∃ z ∈ endsFrom a n (remaining a n ss), z.1 = s := by
    intro s hs
    rw [← map_fst_endsFrom a n (remaining a n ss)] at hs
    exact List.mem_map.1 hs
  have hpoints : ∀ s ∈ remaining a n ss, ∃ p, s.point = some p := by
    intro s hs
    obtain ⟨z, hz, rfl⟩ := hmem s hs
    exact ⟨z.2.point, congrArg Snap.point (hends z hz).1⟩
  obtain ⟨z, hz, rfl⟩ := hmem t ht
  refine ⟨z, hz, ⟨rfl, (hends z hz).1, (hends z hz).2⟩, ?_⟩
  -- Some snap that is left, at this place, ends where the other one does.
  obtain ⟨halike, -, -⟩ := renumbered_alike shape hbare hf a
  have hplaced := List.mem_map_of_mem (f := fun x : Snap K × Anchor K => (x.1.bare, x.2)) hx
  rw [halike] at hplaced
  obtain ⟨y, hy, heq⟩ := List.mem_map.1 hplaced
  obtain ⟨hyplace, hanchor⟩ := Prod.mk.inj heq
  have hyz : y.2 = z.2 := end_eq_of_bare_eq hpoints hsorted hy hz (hyplace.trans hplace)
  rw [← hanchor, hyz]

end RoadSplice.Splicing

/-
  RoadSplice.Proofs.Overlay.Ends — where the snaps of a road end.

  Every snap of a road ends at an anchor: at the one before it, if that is at its spot, and else at
  the one that it becomes.  Which it is depends on the places of the snaps alone, so snaps that come
  in another order, but at the same places, end at the same anchors; and counting the virtual nodes
  from another number changes the numbers of the anchors and nothing else.
-/
import RoadSplice.Proofs.Overlay.Stops

namespace RoadSplice

variable {K : Type} [Scalar K]

/-! ## §1. Places. -/

/-- **The place of a snap**: its way index, position and point, without anything else. -/
def Snap.bare (s : Snap K) : Snap K :=
  { Snap.unplaced (.flat Scalar.nan Scalar.nan) with
    wayIndex := s.wayIndex
    position := s.position
    point := s.point }

theorem Snap.bare_eq_iff {s t : Snap K} :
    s.bare = t.bare ↔ s.wayIndex = t.wayIndex ∧ s.position = t.position ∧ s.point = t.point := by
  unfold bare
  simp [unplaced]

/-- A snap that has a point and knows how far that is from its fix. -/
structure Snap.Measured (s : Snap K) : Prop where
  exists_point : ∃ p, s.point = some p
  measured_eq : s.measured = s

namespace Splicing

variable {shape : Polyline K} {s t : Snap K} {ss ss' : List (Snap K)} {a : Anchor K} {n : NodeId}

theorem along_congr (h : s.bare = t.bare) : along shape s = along shape t :=
  (show along shape s.bare = along shape t.bare from congrArg (along shape) h)

/-! ## §2. Ends. -/

/-- **Where the snaps behind an anchor end**, each with the anchor at which it does. -/
def endsFrom : Anchor K → NodeId → List (Snap K) → List (Snap K × Anchor K)
  | _, _, [] => []
  | a, n, s :: ss =>
    if a.point.coincides (s.point.getD a.point) then (s, a) :: endsFrom a n ss
    else (s, anchorAt a s n) :: endsFrom (anchorAt a s n) (n + 1) ss

@[simp]
theorem map_fst_endsFrom (a : Anchor K) (n : NodeId) (ss : List (Snap K)) :
    (endsFrom a n ss).map (·.1) = ss := by
  induction ss generalizing a n with
  | nil => rfl
  | cons s ss ih =>
    unfold endsFrom
    split
    · rw [List.map_cons, ih]
    · rw [List.map_cons, ih]

theorem mem_of_mem_endsFrom {x : Snap K × Anchor K} (hx : x ∈ endsFrom a n ss) : x.1 ∈ ss := by
  rw [← map_fst_endsFrom a n ss]
  exact List.mem_map_of_mem hx

/-- A snap that becomes an anchor is what it would be if it had found the anchor there. -/
theorem setNode_eq_collapsed (h : s.Measured) (a : Anchor K) (n : NodeId) :
    s.setNode n = collapsed s (anchorAt a s n) := by
  obtain ⟨p, hp⟩ := h.exists_point
  have hdistance := congrArg Snap.distance h.measured_eq
  unfold collapsed anchorAt Snap.measured Snap.setNode
  unfold Snap.measured at hdistance
  cases s
  simp_all

/-- **What becomes of the snaps** is said by their ends. -/
theorem settledFrom_eq (h : ∀ s ∈ ss, s.Measured) (a : Anchor K) (n : NodeId) :
    settledFrom a n ss = (endsFrom a n ss).map fun x => collapsed x.1 x.2 := by
  induction ss generalizing a n with
  | nil => rfl
  | cons s ss ih =>
    have hrest := ih fun t ht => h t (List.mem_cons_of_mem _ ht)
    unfold settledFrom endsFrom
    split
    · rw [List.map_cons, hrest]
    · rw [List.map_cons, hrest, setNode_eq_collapsed (h s List.mem_cons_self)]

/-- The anchor that a stop is for the snaps behind it. -/
def Stop.anchor (st : Stop K) (node : NodeId) : Anchor K :=
  ⟨st.point, st.snap.wayIndex + 1, node, true, (st.snap.wayIndex, st.snap.position)⟩

/-- **A snap ends at the anchor or at a stop behind it**, which is numbered by its place. -/
theorem end_eq (shape : Polyline K) {x : Snap K × Anchor K} (hx : x ∈ endsFrom a n ss) :
    x.2 = a ∨ ∃ (j : Nat) (st : Stop K), (stopsFrom shape a n ss)[j]? = some st ∧
      x.2 = st.anchor (n + j) := by
  -- Induction along the snaps: each one joins the anchor or is the next anchor.
  induction ss generalizing a n with
  | nil => cases hx
  | cons s ss ih =>
    unfold endsFrom at hx
    unfold stopsFrom
    split at hx
    · rename_i hco
      rw [if_pos hco]
      rcases List.mem_cons.1 hx with rfl | hx
      · exact .inl rfl
      · exact ih hx
    · rename_i hco
      rw [if_neg hco]
      refine .inr ?_
      rcases List.mem_cons.1 hx with rfl | hx
      · exact ⟨0, _, rfl, rfl⟩
      · rcases ih hx with heq | ⟨j, st, hst, heq⟩
        · exact ⟨0, _, rfl, heq⟩
        · refine ⟨j + 1, st, hst, ?_⟩
          rw [heq, Nat.add_right_comm, Nat.add_assoc]

/-- A snap ends at the anchor or at one of the stops behind it. -/
theorem end_cases (shape : Polyline K) {x : Snap K × Anchor K} (hx : x ∈ endsFrom a n ss) :
    x.2 = a ∨ ∃ j < (stopsFrom shape a n ss).length, x.2.node = n + j := by
  rcases end_eq shape hx with heq | ⟨j, st, hst, heq⟩
  · exact .inl heq
  · exact .inr ⟨j, (List.getElem?_eq_some_iff.1 hst).1, congrArg Anchor.node heq⟩

/-- **A settled snap** is still on the road on which it was, and has the node of its end. -/
theorem exists_end_of_settled {t : Snap K} (ht : t ∈ settledFrom a n ss) :
    ∃ x ∈ endsFrom a n ss, t.closest = x.1.closest ∧ t.node = some x.2.node := by
  induction ss generalizing a n with
  | nil => cases ht
  | cons s ss ih =>
    unfold settledFrom at ht
    unfold endsFrom
    split at ht
    · rename_i hco
      rw [if_pos hco]
      rcases List.mem_cons.1 ht with rfl | ht
      · exact ⟨_, List.mem_cons_self, rfl, rfl⟩
      · obtain ⟨x, hx, hsettled⟩ := ih ht
        exact ⟨x, List.mem_cons_of_mem _ hx, hsettled⟩
    · rename_i hco
      rw [if_neg hco]
      rcases List.mem_cons.1 ht with rfl | ht
      · exact ⟨_, List.mem_cons_self, rfl, rfl⟩
      · obtain ⟨x, hx, hsettled⟩ := ih ht
        exact ⟨x, List.mem_cons_of_mem _ hx, hsettled⟩

/-- **A snap hardly moves**: it ends at its own point or at one that coincides with that. -/
theorem end_spot {x : Snap K × Anchor K} (hx : x ∈ endsFrom a n ss) {p : Point K}
    (hp : x.1.point = some p) : x.2.point = p ∨ x.2.point.coincides p = true := by
  induction ss generalizing a n with
  | nil => cases hx
  | cons s ss ih =>
    unfold endsFrom at hx
    split at hx
    · rename_i hco
      rcases List.mem_cons.1 hx with rfl | hx
      · rw [show s.point.getD a.point = p by rw [show s.point = some p from hp]; rfl] at hco
        exact .inr hco
      · exact ih hx
    · rcases List.mem_cons.1 hx with rfl | hx
      · refine .inl ?_
        show s.point.getD a.point = p
        rw [show s.point = some p from hp]
        rfl
      · exact ih hx

/-! ## §3. Other numbers. -/

/-- An anchor whose node has another number. -/
def Anchor.renumbered (a : Anchor K) (f : NodeId → NodeId) : Anchor K := { a with node := f a.node }

/-- **Snaps at the same places** have the same stops and ends, whatever the number from which the
virtual nodes are counted. -/
theorem renumbered_alike (shape : Polyline K) {f : NodeId → NodeId}
    (h : ss'.map Snap.bare = ss.map Snap.bare) {n' : NodeId} (hf : ∀ j, f (n + j) = n' + j)
    (a : Anchor K) :
    (endsFrom (a.renumbered f) n' ss').map (fun x => (x.1.bare, x.2)) =
        (endsFrom a n ss).map (fun x => (x.1.bare, x.2.renumbered f)) ∧
      (stopsFrom shape (a.renumbered f) n' ss').map (fun st => (st.point, st.part)) =
        (stopsFrom shape a n ss).map (fun st => (st.point, st.part)) ∧
      lastAnchor (a.renumbered f) n' ss' = (lastAnchor a n ss).renumbered f := by
  induction ss generalizing ss' a n n' with
  | nil =>
    obtain rfl : ss' = [] := by simpa using h
    exact ⟨rfl, rfl, rfl⟩
  | cons s ss ih =>
    obtain ⟨s', ss', rfl⟩ : ∃ s' rest, ss' = s' :: rest := by
      cases ss' with
      | nil => cases h
      | cons s' rest => exact ⟨s', rest, rfl⟩
    obtain ⟨hs, hrest⟩ := List.cons.inj h
    obtain ⟨hindex, hposition, hpoint⟩ := Snap.bare_eq_iff.1 hs
    have hspot : (a.renumbered f).point.coincides (s'.point.getD (a.renumbered f).point) =
        a.point.coincides (s.point.getD a.point) := by rw [hpoint]; rfl
    have hpart : partToSnap shape (a.renumbered f) s' = partToSnap shape a s := by
      unfold partToSnap
      rw [hindex, hposition, hpoint]
      rfl
    have hanchor : anchorAt (a.renumbered f) s' n' = (anchorAt a s n).renumbered f := by
      have hnode : f n = n' := hf 0
      unfold anchorAt Anchor.renumbered
      rw [hindex, hposition, hpoint, hnode]
    unfold endsFrom stopsFrom lastAnchor
    rw [hspot]
    split
    · obtain ⟨hends, hstops, hlast⟩ := ih hrest hf a
      simp only [List.map_cons, hs, hends]
      exact ⟨trivial, hstops, hlast⟩
    · -- The number of the next virtual node is one more in both counts.
      have hnext : ∀ j, f (n + 1 + j) = n' + 1 + j := fun j => by
        rw [Nat.add_assoc, hf, Nat.add_assoc]
      obtain ⟨hends, hstops, hlast⟩ := ih hrest hnext (anchorAt a s n)
      simp only [List.map_cons, hs, hanchor, hends, hstops, hpart, hpoint]
      exact ⟨trivial, rfl, hlast⟩

/-! ## §4. Ties. -/

/-- **A snap comes before another one** on a road: it is not behind it; and if it is not before it
either, they are at one place, which coincides with itself. -/
def Precedes (shape : Polyline K) (s t : Snap K) : Prop :=
  NotBehind shape s t ∧ (NotBehind shape t s →
    s.bare = t.bare ∧ ∀ p, s.point = some p → p.coincides p = true)

/-- Behind a snap that has ended, the others at its place end there too. -/
theorem end_of_bare_eq {p : Point K} (hp : s.point = some p)
    (hspot : ∀ t ∈ ss, t.bare = s.bare → a.point.coincides p = true)
    (hbefore : ∀ t ∈ ss, Precedes shape s t) (hsorted : ss.Pairwise (Precedes shape))
    {x : Snap K × Anchor K} (hx : x ∈ endsFrom a n ss) (hbare : x.1.bare = s.bare) : x.2 = a := by
  induction ss generalizing n with
  | nil => cases hx
  | cons t ss ih =>
    obtain ⟨hfirst, hsorted⟩ := List.pairwise_cons.1 hsorted
    by_cases ht : t.bare = s.bare
    · have hpoint : t.point = some p := (Snap.bare_eq_iff.1 ht).2.2.trans hp
      have hco : a.point.coincides (t.point.getD a.point) = true := by
        rw [hpoint]
        exact hspot t List.mem_cons_self ht
      unfold endsFrom at hx
      rw [if_pos hco] at hx
      rcases List.mem_cons.1 hx with rfl | hx
      · rfl
      · exact ih (fun u hu => hspot u (List.mem_cons_of_mem _ hu))
          (fun u hu => hbefore u (List.mem_cons_of_mem _ hu)) hsorted hx
    · -- Another snap between two at one place would be tied with them.
      rcases List.mem_cons.1 (mem_of_mem_endsFrom hx) with heq | hmem
      · exact absurd (heq ▸ hbare) ht
      · obtain ⟨k, l, hk, hl, hkl⟩ := (hfirst x.1 hmem).1
        have hback : NotBehind shape t s := ⟨k, l, hk, (along_congr hbare).symm.trans hl, hkl⟩
        exact absurd ((hbefore t List.mem_cons_self).2 hback).1.symm ht

/-- **Snaps at one place end at one anchor.** -/
theorem end_eq_of_bare_eq (hpoints : ∀ s ∈ ss, ∃ p, s.point = some p)
    (hsorted : ss.Pairwise (Precedes shape)) {x y : Snap K × Anchor K}
    (hx : x ∈ endsFrom a n ss) (hy : y ∈ endsFrom a n ss) (hbare : x.1.bare = y.1.bare) :
    x.2 = y.2 := by
  have hpairwise : (endsFrom a n ss).Pairwise fun x y => x.1.bare = y.1.bare → x.2 = y.2 := by
    clear hx hy
    induction ss generalizing a n with
    | nil => exact .nil
    | cons s ss ih =>
      obtain ⟨hfirst, hsorted⟩ := List.pairwise_cons.1 hsorted
      obtain ⟨p, hp⟩ := hpoints s List.mem_cons_self
      have hpoints : ∀ t ∈ ss, ∃ p, t.point = some p :=
        fun t ht => hpoints t (List.mem_cons_of_mem _ ht)
      unfold endsFrom
      split
      · rename_i hco
        rw [hp] at hco
        exact List.pairwise_cons.2 ⟨fun y hy hbare =>
          (end_of_bare_eq hp (fun _ _ _ => hco) hfirst hsorted hy hbare.symm).symm,
          ih hpoints hsorted⟩
      · refine List.pairwise_cons.2 ⟨fun y hy hbare =>
          (end_of_bare_eq hp (fun t ht hbare => ?_) hfirst hsorted hy hbare.symm).symm,
          ih hpoints hsorted⟩
        -- A later snap at this place is tied with this one.
        obtain ⟨k, l, hk, hl, hkl⟩ := (hfirst t ht).1
        have hback : NotBehind shape t s := by
          have hsame : along shape t = along shape s := along_congr hbare
          exact ⟨k, l, hsame.trans hk, hsame.symm.trans hl, hkl⟩
        have hspot := ((hfirst t ht).2 hback).2 p hp
        simpa [anchorAt, hp] using hspot
  have : Std.Symm fun x y : Snap K × Anchor K => x.1.bare = y.1.bare → x.2 = y.2 :=
    ⟨fun x y h hbare => (h hbare.symm).symm⟩
  exact hpairwise.forall_of_forall (fun _ _ _ => rfl) hx hy hbare

/-- **The order of the places** of some snaps does not depend on how the snaps came. -/
theorem map_bare_eq_of_perm (h : ss.Pairwise (Precedes shape)) (h' : ss'.Pairwise (NotBehind shape))
    (hperm : ss'.Perm ss) : ss'.map Snap.bare = ss.map Snap.bare := by
  have : Std.Symm fun s t => NotBehind shape s t → NotBehind shape t s → s.bare = t.bare :=
    ⟨fun s t h hts hst => (h hst hts).symm⟩
  have hties : ss.Pairwise fun s t => NotBehind shape s t → NotBehind shape t s → s.bare = t.bare :=
    h.imp fun h _ hback => (h.2 hback).1
  have hantisymm : ∀ x y, x ∈ ss'.map Snap.bare → y ∈ ss.map Snap.bare → NotBehind shape x y →
      NotBehind shape y x → x = y := by
    intro x y hx hy hxy hyx
    obtain ⟨s, hs, rfl⟩ := List.mem_map.1 hx
    obtain ⟨t, ht, rfl⟩ := List.mem_map.1 hy
    exact hties.forall_of_forall (fun _ _ _ _ => rfl) (hperm.mem_iff.1 hs) ht hxy hyx
  exact List.Perm.eq_of_pairwise hantisymm (List.pairwise_map.2 h')
    (List.pairwise_map.2 (h.imp fun h => h.1)) (hperm.map _)

end Splicing

end RoadSplice

/-
  RoadSplice.Proofs.Query.Marks — marks of pieces and the lists of those who set them.

  Marks lie in the pieces of the overlay, and each graph has a list of those that it has set.  All
  that happens to marks happens to a function on places, the tables of the overlay staying as they
  are: marking places sets it there and lists them, taking back marks clears it where it is listed.
-/
import RoadSplice.Proofs.Overlay.Representation
import RoadSplice.Query.Heading

namespace RoadSplice

variable {K : Type}

/-! ## §1. An overlay with other marks. -/

namespace Overlay

/-- **The overlay with given marks.** -/
def withMarks (o : Overlay K) (m : Nat → Bool) : Overlay K :=
  { o with pieces := o.pieces.mapIdx fun i p => { p with unfavored := m i } }

theorem piece?_withMarks (o : Overlay K) (m : Nat → Bool) (i : Nat) :
    (o.withMarks m).piece? i = (o.piece? i).map fun p => { p with unfavored := m i } :=
  Array.getElem?_mapIdx

theorem setUnfavored_withMarks (o : Overlay K) (m : Nat → Bool) (i : Nat) (b : Bool) :
    (o.withMarks m).setUnfavored i b = o.withMarks fun j => if i = j then b else m j := by
  unfold withMarks setUnfavored
  congr 1
  refine Array.ext_getElem? fun j => ?_
  rw [Array.getElem?_modify, Array.getElem?_mapIdx, Array.getElem?_mapIdx]
  by_cases hij : i = j <;> simp [hij, Function.comp_def]

/-- Nothing changes where nothing is marked. -/
theorem withMarks_none {o : Overlay K} (h : ∀ i p, o.piece? i = some p → p.unfavored = false) :
    o.withMarks (fun _ => false) = o := by
  have hpieces : o.pieces.mapIdx (fun _ p => { p with unfavored := false }) = o.pieces := by
    refine Array.ext_getElem? fun i => ?_
    rw [Array.getElem?_mapIdx]
    cases hp : o.pieces[i]? with
    | none => rfl
    | some p =>
      have hmark : p.unfavored = false := h i p hp
      exact congrArg some (by rw [← hmark])
  unfold withMarks
  rw [hpieces]

/-- **A fresh overlay**: its tables hang together, and nothing is marked. -/
structure Fresh (o : Overlay K) : Prop where
  linked : o.WellLinked
  unmarked : o.withMarks (fun _ => false) = o

/-- **A built overlay is fresh.** -/
theorem build_fresh [Scalar K] {g : RoadGraph K} {o : Overlay K} {snaps final : Array (Snap K)}
    (h : Overlay.build g snaps = (.ok o, final)) : o.Fresh := by
  refine ⟨(build_tables h).1, withMarks_none fun i p hp => ?_⟩
  obtain ⟨groups, prepared, spliced, cs, hs⟩ := Splicing.exists_buildSteps h
  have hlinked := hs.roads.laid.wellLinked hs.distinct
  obtain ⟨⟨deltas, rfl⟩, -⟩ := hlinked.buildDeltas_inv hs.deltas
  obtain ⟨c, hc, j, part, back, -, -, rfl⟩ := hs.roads.laid.exists_of_piece? hp
  cases back <;> rfl

end Overlay

/-! ## §2. Marks and the list of a graph. -/

namespace QueryGraph

/-- Listing a place, once. -/
def track (tracked : List Nat) (i : Nat) : List Nat :=
  if tracked.contains i then tracked else tracked ++ [i]

theorem mem_track {t : List Nat} {i j : Nat} : j ∈ track t i ↔ j ∈ t ∨ j = i := by
  unfold track
  split
  · rename_i hi
    have hi : i ∈ t := by simpa using hi
    exact ⟨.inl, fun h => h.elim id fun heq => heq ▸ hi⟩
  · simp

theorem nodup_track {t : List Nat} (h : t.Nodup) (i : Nat) : (track t i).Nodup := by
  unfold track
  split
  · exact h
  · rename_i hi
    have hi : i ∉ t := by simpa using hi
    exact List.nodup_append.2 ⟨h, List.nodup_singleton i, fun a ha b hb hab =>
      hi (by rw [← List.mem_singleton.1 hb, ← hab]; exact ha)⟩

theorem mem_foldl_track {P t : List Nat} {i : Nat} :
    i ∈ P.foldl track t ↔ i ∈ t ∨ i ∈ P := by
  induction P generalizing t with
  | nil => simp
  | cons j P ih => rw [List.foldl_cons, ih, mem_track, List.mem_cons, or_assoc]

theorem nodup_foldl_track {P t : List Nat} (h : t.Nodup) : (P.foldl track t).Nodup := by
  induction P generalizing t with
  | nil => exact h
  | cons j P ih => exact ih (nodup_track h j)

/-- **A graph on an overlay** with given marks and a given list. -/
def marking (g : RoadGraph K) (o : Overlay K) (m : Nat → Bool) (t : List Nat) : QueryGraph K :=
  ⟨g, o.withMarks m, t⟩

variable {g : RoadGraph K} {o : Overlay K} {m : Nat → Bool} {t : List Nat}

/-- A graph that has just been opened on a fresh overlay. -/
theorem ofOverlay_eq_marking (ho : o.Fresh) :
    ofOverlay g o = marking g o (fun _ => false) [] := by
  unfold ofOverlay marking
  rw [ho.unmarked]

theorem markOne_marking (i : Nat) : (marking g o m t).markOne i =
    marking g o (fun j => if i = j then true else m j) (track t i) := by
  unfold markOne marking track
  rw [Overlay.setUnfavored_withMarks]

/-- **Marking places** marks those and no others, and lists them. -/
theorem foldl_markOne_marking (P : List Nat) :
    P.foldl markOne (marking g o m t) =
      marking g o (fun i => m i || P.contains i) (P.foldl track t) := by
  induction P generalizing m t with
  | nil => simp
  | cons j P ih =>
    rw [List.foldl_cons, markOne_marking, ih, List.foldl_cons]
    congr 1
    funext i
    by_cases hij : j = i
    · simp [hij]
    · simp [hij, Ne.symm hij]

/-- A piece on given marks. -/
theorem piece?_marking {i : Nat} {p : Piece K} (hp : o.piece? i = some p) :
    (marking g o m t).overlay.piece? i = some { p with unfavored := m i } := by
  show (o.withMarks m).piece? i = _
  rw [Overlay.piece?_withMarks, hp]
  rfl

/-- Marking a piece marks it and the piece paired with it. -/
theorem mark_marking {i : Nat} {p : Piece K} (hp : o.piece? i = some p) :
    (marking g o m t).mark i = [i, p.pair].foldl markOne (marking g o m t) := by
  unfold mark
  rw [piece?_marking hp]
  rfl

/-- **Taking back marks** clears what is listed, and the list. -/
theorem clearMarks_marking :
    (marking g o m t).clearMarks = marking g o (fun i => m i && !t.contains i) [] := by
  -- Marks are taken back one by one.
  have hfold : ∀ (t : List Nat) (m : Nat → Bool),
      t.foldl (fun o i => o.setUnfavored i false) (o.withMarks m) =
        o.withMarks fun i => m i && !t.contains i := by
    intro t
    induction t with
    | nil => simp
    | cons j t ih =>
      intro m
      rw [List.foldl_cons, Overlay.setUnfavored_withMarks, ih]
      congr 1
      funext i
      by_cases hij : j = i
      · simp [hij]
      · simp [hij, Ne.symm hij]
  show (⟨g, t.foldl (fun o i => o.setUnfavored i false) (o.withMarks m), []⟩ : QueryGraph K) = _
  rw [hfold]
  rfl

end QueryGraph

end RoadSplice

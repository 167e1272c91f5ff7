/-
  RoadSplice.Proofs.Overlay.Build — the overlay of a list of snaps.

  Snaps are turned and filed under their roads; then each road gets its chain.  The roads of two
  chains differ, and what one road does to its snaps touches no snap of another road.
-/
import RoadSplice.Proofs.Overlay.Road

namespace RoadSplice.Splicing

variable {K : Type} [Scalar K] {w w' : Splicing K} {g : RoadGraph K}

/-! ## §1. Preparing snaps. -/

/-- The snaps lie on roads of the graph. -/
def OnRoads (g : RoadGraph K) (snaps : Array (Snap K)) : Prop :=
  ∀ (i : Nat) s, snaps[i]? = some s → ∀ d, s.closest = some d → g.HasDirection d

/-- What a snap is like once it has been prepared. -/
def Prepared (g : RoadGraph K) (s s' : Snap K) : Prop :=
  ∃ turned, s.normalized g = .ok turned ∧
    ((turned.point.isNone = true ∧ turned.located g = .ok s') ∨
      (turned.point.isNone = false ∧ s' = turned))

/-- **Turning a snap** keeps it, or turns its direction and counts its way index from the other
end. -/
theorem normalized_cases {s s' : Snap K} (h : s.normalized g = .ok s') :
    (s' = s ∧ ∀ d, s.closest = some d → Snap.runsBackwards g d = .ok false) ∨
      ∃ d shape index, s.closest = some d ∧ Snap.runsBackwards g d = .ok true ∧
        d.reversed.shape g = .ok shape ∧ s.indexFromEnd shape.length = some index ∧
        s' = { s with closest := some d.reversed, wayIndex := index } := by
  unfold Snap.normalized at h
  cases hd : s.closest with
  | none =>
    simp only [hd, except_pure] at h
    exact .inl ⟨h.symm, by simp⟩
  | some d =>
    simp only [hd] at h
    obtain ⟨turn, hturn, h⟩ := except_bind.1 h
    cases turn with
    | false =>
      simp only [Bool.false_eq_true, ↓reduceIte, except_pure] at h
      refine .inl ⟨h.symm, fun d' hd' => ?_⟩
      obtain rfl : d = d' := by simpa using hd'
      exact hturn
    | true =>
      simp only [↓reduceIte] at h
      obtain ⟨shape, hshape, h⟩ := except_bind.1 h
      cases hindex : s.indexFromEnd shape.length with
      | none => simp [hindex] at h
      | some index =>
        simp only [hindex, except_pure] at h
        exact .inr ⟨d, shape, index, rfl, hturn, hshape, hindex, h.symm⟩

/-- **Locating a snap** gives it a point and keeps its place on the road. -/
theorem located_inv {s s' : Snap K} (h : s.located g = .ok s') :
    ∃ d shape here, s.closest = some d ∧ d.shape g = .ok shape ∧
      shape.get? s.wayIndex = some here ∧ s'.closest = s.closest ∧ s'.wayIndex = s.wayIndex ∧
      s'.position = s.position ∧
      ((s.position = .edge ∧ ∃ next, shape.get? (s.wayIndex + 1) = some next ∧
          s'.point = some (Snap.footOn s.query here next shape.is3d)) ∨
        (s.position ≠ .edge ∧ s'.point = some here)) := by
  unfold Snap.located at h
  cases hd : s.closest with
  | none => simp [hd] at h
  | some d =>
    simp only [hd] at h
    obtain ⟨shape, hshape, h⟩ := except_bind.1 h
    cases hhere : shape.get? s.wayIndex with
    | none => simp [hhere] at h
    | some here =>
      refine ⟨d, shape, here, rfl, hshape, hhere, ?_⟩
      cases hpos : s.position with
      | tower =>
        simp only [hhere, hpos, except_pure] at h
        subst h
        exact ⟨rfl, rfl, rfl, .inr ⟨by simp, rfl⟩⟩
      | pillar =>
        simp only [hhere, hpos, except_pure] at h
        subst h
        exact ⟨rfl, rfl, rfl, .inr ⟨by simp, rfl⟩⟩
      | edge =>
        simp only [hhere, hpos] at h
        cases hnext : shape.get? (s.wayIndex + 1) with
        | none => simp [hnext] at h
        | some next =>
          simp only [hnext, except_pure] at h
          subst h
          exact ⟨rfl, rfl, rfl, .inl ⟨rfl, next, rfl, rfl⟩⟩

/-- A snap at an inner point is located there. -/
theorem located_pillar {s : Snap K} {d : DirectedEdge} {shape : Polyline K} {here : Point K}
    (hd : s.closest = some d) (hshape : d.shape g = .ok shape)
    (hhere : shape.get? s.wayIndex = some here) (hpos : s.position = .pillar) :
    s.located g = .ok { s with point := some here }.measured := by
  unfold Snap.located
  simp [hd, hshape, hhere, hpos, bind, Except.bind, pure, Except.pure]

/-- A snap on a segment is located at the foot of its fix. -/
theorem located_edge {s : Snap K} {d : DirectedEdge} {shape : Polyline K} {here next : Point K}
    (hd : s.closest = some d) (hshape : d.shape g = .ok shape)
    (hhere : shape.get? s.wayIndex = some here) (hnext : shape.get? (s.wayIndex + 1) = some next)
    (hpos : s.position = .edge) :
    s.located g =
      .ok { s with point := some (Snap.footOn s.query here next shape.is3d) }.measured := by
  unfold Snap.located
  simp [hd, hshape, hhere, hnext, hpos, bind, Except.bind, pure, Except.pure]

/-- Measuring a snap keeps its point. -/
theorem point_measured (s : Snap K) : s.measured.point = s.point := by
  unfold Snap.measured
  cases hp : s.point with
  | none => exact hp
  | some p => rfl

/-! ## §2. Filing snaps. -/

/-- A snap that is filed under a road: it lies on it, has a point, and is at no tower. -/
structure Filed (g : RoadGraph K) (edge : EdgeId) (s s' : Snap K) : Prop where
  prepared : Prepared g s s'
  exists_closest : ∃ d, s'.closest = some d ∧ d.edge = edge
  exists_point : ∃ p, s'.point = some p
  not_tower : s'.position ≠ .tower

/-- A snap is prepared in one way only. -/
theorem Prepared.unique {s t t' : Snap K} (h : Prepared g s t) (h' : Prepared g s t') : t = t' := by
  obtain ⟨turned, hturned, hcases⟩ := h
  obtain ⟨turned', hturned', hcases'⟩ := h'
  obtain rfl : turned = turned' := Except.ok.inj (hturned.symm.trans hturned')
  rcases hcases with ⟨hnone, hloc⟩ | ⟨hsome, rfl⟩
  · rcases hcases' with ⟨-, hloc'⟩ | ⟨hsome, -⟩
    · exact Except.ok.inj (hloc.symm.trans hloc')
    · exact absurd hnone (by simp [hsome])
  · rcases hcases' with ⟨hnone, -⟩ | ⟨-, rfl⟩
    · exact absurd hnone (by simp [hsome])
    · rfl

/-- A snap that lies on a road of the graph is still there when it has been prepared. -/
theorem Prepared.direction {s s' : Snap K} (h : Prepared g s s')
    (hroad : ∀ d, s.closest = some d → g.HasDirection d) {d : DirectedEdge}
    (hd : s'.closest = some d) : g.HasDirection d := by
  obtain ⟨turned, hturned, hcases⟩ := h
  have hturn : ∀ d, turned.closest = some d → g.HasDirection d := by
    obtain ⟨rfl, -⟩ | ⟨d, shape, index, hd, -, -, -, rfl⟩ := normalized_cases hturned
    · exact hroad
    · intro d' hd'
      obtain rfl : d.reversed = d' := by simpa using hd'
      exact (hroad d hd).reversed
  obtain ⟨-, hloc⟩ | ⟨-, rfl⟩ := hcases
  · obtain ⟨d', shape, here, -, -, -, hclosest, -⟩ := located_inv hloc
    exact hturn d (hclosest ▸ hd)
  · exact hturn d hd

theorem Prepared.filed {s s' : Snap K} (h : Prepared g s s') (hpos : s.position ≠ .tower)
    {d : DirectedEdge} (hd : s'.closest = some d) : Filed g d.edge s s' := by
  obtain ⟨turned, hturned, hcases⟩ := id h
  have hturn : turned.position = s.position := by
    obtain ⟨rfl, -⟩ | ⟨d, shape, index, hd, -, -, -, rfl⟩ := normalized_cases hturned <;> rfl
  obtain ⟨hnone, hloc⟩ | ⟨hsome, rfl⟩ := hcases
  · obtain ⟨d', shape, here, -, -, -, -, -, hposition, hpoint⟩ := located_inv hloc
    refine ⟨h, ⟨d, hd, rfl⟩, ?_, ?_⟩
    · obtain ⟨-, next, -, hp⟩ | ⟨-, hp⟩ := hpoint
      · exact ⟨_, hp⟩
      · exact ⟨_, hp⟩
    · rwa [hposition, hturn]
  · refine ⟨h, ⟨d, hd, rfl⟩, ?_, ?_⟩
    · exact Option.isSome_iff_exists.1 (by simpa using hsome)
    · rwa [hturn]

/-- **Preparing a snap**: one at a tower is left alone, any other is filed under its road. -/
theorem prepare_inv {groups groups' : Groups} {i : Nat}
    (h : Yields (prepare g groups i) w groups' w') :
    ∃ s, w.snaps[i]? = some s ∧
      ((s.position = .tower ∧ groups' = groups ∧ w' = w) ∨
        (s.position ≠ .tower ∧ ∃ s' d, Prepared g s s' ∧ s'.closest = some d ∧
          groups' = file d.edge i groups ∧
          w' = { w with snaps := w.snaps.setIfInBounds i s' })) := by
  unfold prepare at h
  simp only [yields_bind, yields_snap] at h
  obtain ⟨s, _, ⟨hs, rfl⟩, h⟩ := h
  refine ⟨s, hs, ?_⟩
  by_cases hpos : s.position = .tower
  · simp only [hpos, ↓reduceIte, yields_pure] at h
    exact .inl ⟨hpos, h⟩
  · simp only [hpos, ↓reduceIte, yields_bind, yields_lift, yields_setSnap] at h
    obtain ⟨turned, _, ⟨hturned, rfl⟩, _, _, rfl, h⟩ := h
    refine .inr ⟨hpos, ?_⟩
    cases hpoint : turned.point.isNone with
    | true =>
      simp only [hpoint, ↓reduceIte, yields_bind, yields_lift, yields_setSnap, yields_closestOf,
        yields_pure] at h
      obtain ⟨s', _, ⟨hloc, rfl⟩, _, _, rfl, d, _, ⟨hd, rfl⟩, rfl, rfl⟩ := h
      exact ⟨s', d, ⟨turned, hturned, .inl ⟨hpoint, hloc⟩⟩, hd, rfl, by simp⟩
    | false =>
      simp only [hpoint, Bool.false_eq_true, ↓reduceIte, yields_bind, yields_pure, yields_setSnap,
        yields_closestOf] at h
      obtain ⟨_, _, ⟨rfl, rfl⟩, _, _, rfl, d, _, ⟨hd, rfl⟩, rfl, rfl⟩ := h
      exact ⟨_, d, ⟨_, hturned, .inr ⟨hpoint, rfl⟩⟩, hd, rfl, by simp⟩

/-! ## §3. Groups. -/

/-- **Filing** adds a number to one group, at its end. -/
theorem mem_file {edge e : EdgeId} {i : Nat} {is : List Nat} {groups : Groups}
    (h : (e, is) ∈ file edge i groups) :
    (e, is) ∈ groups ∨
      (e = edge ∧ ∃ is', is = is' ++ [i] ∧ (is' = [] ∨ (edge, is') ∈ groups)) := by
  -- Induction along the groups: the number goes to that of its road, or to a new one at the end.
  induction groups with
  | nil =>
    obtain ⟨rfl, rfl⟩ : e = edge ∧ is = [i] := by simpa [file] using h
    exact .inr ⟨rfl, [], rfl, .inl rfl⟩
  | cons head groups ih =>
    obtain ⟨e', is'⟩ := head
    unfold file at h
    by_cases heq : e' = edge
    · subst heq
      rw [if_pos rfl] at h
      obtain heq | h := List.mem_cons.1 h
      · obtain ⟨rfl, rfl⟩ : e = e' ∧ is = is' ++ [i] := by simpa using heq
        exact .inr ⟨rfl, is', rfl, .inr (by simp)⟩
      · exact .inl (by simp [h])
    · rw [if_neg heq] at h
      obtain heq | h := List.mem_cons.1 h
      · exact .inl (by simp [heq])
      · obtain h | ⟨rfl, is'', rfl, hor⟩ := ih h
        · exact .inl (by simp [h])
        · exact .inr ⟨rfl, is'', rfl, hor.imp_right fun h => by simp [h]⟩

/-- A number in a group was filed before, or it is the new one. -/
theorem filed_of_mem_file {edge e : EdgeId} {i j : Nat} {groups : Groups} {is : List Nat}
    (h : (e, is) ∈ file edge i groups) (hj : j ∈ is) :
    (∃ is', (e, is') ∈ groups ∧ j ∈ is') ∨ (e = edge ∧ j = i) := by
  obtain h | ⟨rfl, is', rfl, hor⟩ := mem_file h
  · exact .inl ⟨is, h, hj⟩
  · obtain hj | hj := List.mem_append.1 hj
    · obtain rfl | hbefore := hor
      · cases hj
      · exact .inl ⟨is', hbefore, hj⟩
    · exact .inr ⟨rfl, List.mem_singleton.1 hj⟩

/-- Where the numbers are filed in turn, each group is increasing. -/
theorem increasing_file {edge e : EdgeId} {n : Nat} {groups : Groups} {is : List Nat}
    (hold : ∀ e is, (e, is) ∈ groups → is.Pairwise (· < ·))
    (hlt : ∀ e is, (e, is) ∈ groups → ∀ j ∈ is, j < n) (h : (e, is) ∈ file edge n groups) :
    is.Pairwise (· < ·) := by
  obtain h | ⟨rfl, is', rfl, rfl | hbefore⟩ := mem_file h
  · exact hold e is h
  · exact List.pairwise_singleton _ _
  · refine List.pairwise_append.2 ⟨hold e is' hbefore, List.pairwise_singleton _ _, ?_⟩
    intro j hj k hk
    rw [List.mem_singleton.1 hk]
    exact hlt e is' hbefore j hj

/-- What was filed stays filed. -/
theorem exists_of_mem (edge : EdgeId) (i : Nat) {e : EdgeId} {is : List Nat} {groups : Groups}
    (h : (e, is) ∈ groups) : ∃ is', (e, is') ∈ file edge i groups ∧ ∀ j ∈ is, j ∈ is' := by
  induction groups with
  | nil => simp at h
  | cons head groups ih =>
    obtain ⟨e', is'⟩ := head
    unfold file
    split
    · rcases List.mem_cons.1 h with heq | h
      · obtain ⟨rfl, rfl⟩ : e = e' ∧ is = is' := by simpa using heq
        exact ⟨is ++ [i], by simp, fun j hj => List.mem_append_left _ hj⟩
      · exact ⟨is, by simp [h], fun j hj => hj⟩
    · rcases List.mem_cons.1 h with heq | h
      · exact ⟨is, by simp [heq], fun j hj => hj⟩
      · obtain ⟨is'', hmem, hsub⟩ := ih h
        exact ⟨is'', by simp [hmem], hsub⟩

theorem exists_filed (edge : EdgeId) (i : Nat) (groups : Groups) :
    ∃ is, (edge, is) ∈ file edge i groups ∧ i ∈ is := by
  induction groups with
  | nil => exact ⟨[i], by simp [file], by simp⟩
  | cons head groups ih =>
    obtain ⟨e, is⟩ := head
    unfold file
    split
    · rename_i heq
      exact ⟨is ++ [i], by simp [heq], by simp⟩
    · obtain ⟨is', hmem, hi⟩ := ih
      exact ⟨is', by simp [hmem], hi⟩

theorem keys_file (edge : EdgeId) (i : Nat) (groups : Groups) :
    (file edge i groups).map (·.1) =
      if edge ∈ groups.map (·.1) then groups.map (·.1) else groups.map (·.1) ++ [edge] := by
  induction groups with
  | nil => rfl
  | cons head groups ih =>
    obtain ⟨e, is⟩ := head
    unfold file
    by_cases heq : e = edge
    · subst heq
      simp
    · rw [if_neg heq, List.map_cons, ih]
      by_cases hmem : edge ∈ groups.map (·.1)
      · rw [if_pos hmem, if_pos (by simp [hmem])]
        rfl
      · rw [if_neg hmem, if_neg (by simpa [Ne.symm heq] using hmem)]
        rfl

theorem nodup_keys_file {edge : EdgeId} {i : Nat} {groups : Groups}
    (h : (groups.map (·.1)).Nodup) : ((file edge i groups).map (·.1)).Nodup := by
  rw [keys_file]
  split
  · exact h
  · rename_i hmem
    exact List.nodup_append.2 ⟨h, by simp, by
      rintro e he e' he' rfl
      exact hmem (List.mem_singleton.1 he' ▸ he)⟩

/-- **The groups of the first `n` snaps.** -/
structure Grouped (g : RoadGraph K) (snaps : Array (Snap K)) (n : Nat) (groups : Groups)
    (w : Splicing K) : Prop where
  keys : (groups.map (·.1)).Nodup
  nodup : ∀ e is, (e, is) ∈ groups → is.Nodup
  increasing : ∀ e is, (e, is) ∈ groups → is.Pairwise (· < ·)
  filed : ∀ e is, (e, is) ∈ groups → ∀ i ∈ is, i < n ∧ ∃ s s', snaps[i]? = some s ∧
    w.snaps[i]? = some s' ∧ Filed g e s s'
  waiting : ∀ i, n ≤ i → w.snaps[i]? = snaps[i]?
  complete : ∀ i s, i < n → snaps[i]? = some s → s.position ≠ .tower →
    ∃ e is, (e, is) ∈ groups ∧ i ∈ is
  towers : ∀ (i : Nat) s, snaps[i]? = some s → s.position = .tower → w.snaps[i]? = some s

theorem Grouped.prepare {snaps : Array (Snap K)} {n : Nat} {groups groups' : Groups}
    (h : Grouped g snaps n groups w)
    (hp : Yields (prepare g groups n) w groups' w') :
    Grouped g snaps (n + 1) groups' w' ∧ w'.overlay = w.overlay := by
  obtain ⟨s, hs, ⟨hpos, rfl, rfl⟩ | ⟨hpos, s', d, hprep, hd, rfl, rfl⟩⟩ := prepare_inv hp
  · refine ⟨⟨h.keys, h.nodup, h.increasing, fun e is hmem i hi => ?_,
      fun i hi => h.waiting i (by omega), fun i t hi ht htower => ?_, h.towers⟩, rfl⟩
    · obtain ⟨hlt, hrest⟩ := h.filed e is hmem i hi
      exact ⟨by omega, hrest⟩
    · refine h.complete i t (Nat.lt_of_le_of_ne (Nat.lt_succ_iff.1 hi) ?_) ht htower
      rintro rfl
      rw [h.waiting i (Nat.le_refl i), ht] at hs
      exact htower (Option.some.inj hs ▸ hpos)
  · have hs₀ : snaps[n]? = some s := (h.waiting n (Nat.le_refl n)).symm.trans hs
    have hlt : n < w.snaps.size := (Array.getElem?_eq_some_iff.1 hs).1
    have hother : ∀ i, i ≠ n → (w.snaps.setIfInBounds n s')[i]? = w.snaps[i]? := fun i hi =>
      Array.getElem?_setIfInBounds_ne (Ne.symm hi)
    have hincreasing : ∀ e is, (e, is) ∈ file d.edge n groups → is.Pairwise (· < ·) :=
      fun e is => increasing_file h.increasing fun e is hmem i hi => (h.filed e is hmem i hi).1
    refine ⟨{
      keys := nodup_keys_file h.keys
      nodup := fun e is hmem => (hincreasing e is hmem).imp Nat.ne_of_lt
      increasing := hincreasing
      filed := fun e is hmem i hi => ?filed
      waiting := fun i hi => ?waiting
      complete := fun i t hi ht htower => ?complete
      towers := fun i t ht htower => ?towers }, rfl⟩
    case filed =>
      obtain ⟨is', hmem, hi⟩ | ⟨rfl, rfl⟩ := filed_of_mem_file hmem hi
      · -- What was filed before has a smaller number.
        obtain ⟨hin, hrest⟩ := h.filed e is' hmem i hi
        rw [hother i (by omega)]
        exact ⟨by omega, hrest⟩
      · exact ⟨Nat.lt_succ_self i, s, s', hs₀, by simp [hlt], hprep.filed hpos hd⟩
    case waiting =>
      rw [hother i (by omega)]
      exact h.waiting i (by omega)
    case complete =>
      by_cases heq : i = n
      · obtain ⟨is, hmem, hi⟩ := exists_filed d.edge n groups
        exact ⟨d.edge, is, hmem, heq ▸ hi⟩
      · obtain ⟨e, is, hmem, hi⟩ := h.complete i t (by omega) ht htower
        obtain ⟨is', hmem', hsub⟩ := exists_of_mem d.edge n hmem
        exact ⟨e, is', hmem', hsub i hi⟩
    case towers =>
      rw [hother i ?_]
      · exact h.towers i t ht htower
      · rintro rfl
        obtain rfl : s = t := Option.some.inj (hs₀.symm.trans ht)
        exact hpos htower

theorem grouped_start (g : RoadGraph K) (o : Overlay K) (snaps : Array (Snap K)) :
    Grouped g snaps 0 [] ⟨o, snaps⟩ :=
  ⟨by simp, by simp, by simp, by simp, fun _ _ => rfl, by simp, fun _ _ h _ => h⟩

/-- **Filing all snaps.** -/
theorem grouped_all {snaps : Array (Snap K)} {o : Overlay K} {n : Nat} {groups : Groups}
    (h : Yields ((List.range n).foldlM (Splicing.prepare g) []) ⟨o, snaps⟩ groups w) :
    Grouped g snaps n groups w ∧ w.overlay = o := by
  induction n generalizing groups w with
  | zero =>
    obtain ⟨rfl, rfl⟩ := yields_pure.1 h
    exact ⟨grouped_start g o snaps, rfl⟩
  | succ n ih =>
    rw [List.range_succ, List.foldlM_append, yields_bind] at h
    obtain ⟨groups', v, hv, h⟩ := h
    obtain ⟨hgrouped, ho⟩ := ih hv
    have hlast : Yields (Splicing.prepare g groups' n) v groups w := by simpa using h
    obtain ⟨hgrouped', ho'⟩ := hgrouped.prepare hlast
    exact ⟨hgrouped', ho'.trans ho⟩

/-! ## §4. Chains. -/

/-- The stops of a chain whose snaps come in a given order. -/
def stopsAlong (firstNode : NodeId) (c : Chain K) (shape : Polyline K) (start : Point K)
    (ss : List (Snap K)) : List (Stop K) :=
  stopsFrom shape (baseAnchor c.road start) (firstNode + c.start) ss

/-- **A chain threads snaps**: they lie on its road, are in order along its shape, and those that
become virtual nodes are its stops. -/
structure Threads (g : RoadGraph K) (snaps final : Array (Snap K)) (firstNode : NodeId)
    (c : Chain K) (shape : Polyline K) (start last : Point K) (ss : List (Snap K)) : Prop where
  shape_eq : c.road.shape g = .ok shape
  start_eq : shape.first? = some start
  last_eq : shape.last? = some last
  long : 2 ≤ shape.length
  filed : ∀ s ∈ ss, ∃ (i : Nat) (s₀ : Snap K), snaps[i]? = some s₀ ∧ Filed g c.road.edge s₀ s
  sorted : ∃ keyed : List ((Nat × K) × Nat),
    List.Forall₂ (fun k s => along shape s = some k.1)
      (keyed.mergeSort fun (a, _) (b, _) => atOrBefore a b) ss
  same_base : ∀ s ∈ ss, ∃ own, s.closest = some own ∧ own.base = c.road.base
  points_eq : c.points = (stopsAlong firstNode c shape start ss).map (·.point)
  parts_eq : c.parts = (stopsAlong firstNode c shape start ss).map (·.part) ++
    [partTo shape (lastAnchor (baseAnchor c.road start) (firstNode + c.start) ss) false last
      (shape.length - 2)]
  /-- The road is that of a snap, in its direction. -/
  exists_first : ∃ s ∈ ss, s.closest = some c.road
  placed : ∀ (j : Nat) st, (stopsAlong firstNode c shape start ss)[j]? = some st →
    ∃ (i : Nat) (s₀ : Snap K), snaps[i]? = some s₀ ∧ Filed g c.road.edge s₀ st.snap ∧
      final[i]? = some (st.snap.setNode (firstNode + c.start + j))

/-- A chain that threads snaps on roads of the graph lies on such a road. -/
theorem Threads.direction {snaps final : Array (Snap K)} {n : NodeId} {c : Chain K}
    {shape : Polyline K} {start last : Point K} {ss : List (Snap K)}
    (h : Threads g snaps final n c shape start last ss) (hsnaps : OnRoads g snaps) :
    g.HasDirection c.road := by
  obtain ⟨s, hs, hroad⟩ := h.exists_first
  obtain ⟨i, s₀, hs₀, hfiled⟩ := h.filed s hs
  exact hfiled.prepared.direction (hsnaps i s₀ hs₀) hroad

/-- Groups of snaps that are filed under their roads. -/
structure ReadyGroups (g : RoadGraph K) (snaps : Array (Snap K)) (groups : Groups)
    (w : Splicing K) : Prop where
  keys : (groups.map (·.1)).Nodup
  nodup : ∀ e is, (e, is) ∈ groups → is.Nodup
  filed : ∀ e is, (e, is) ∈ groups → ∀ i ∈ is, ∃ s s', snaps[i]? = some s ∧
    w.snaps[i]? = some s' ∧ Filed g e s s'

/-- A snap is in the group of its road and in no other. -/
theorem ReadyGroups.edge_eq {snaps : Array (Snap K)} {groups : Groups}
    (h : ReadyGroups g snaps groups w) {e e' : EdgeId} {is is' : List Nat} {i : Nat}
    (hmem : (e, is) ∈ groups) (hmem' : (e', is') ∈ groups) (hi : i ∈ is) (hi' : i ∈ is') :
    e = e' := by
  obtain ⟨s, s', -, hs, hf⟩ := h.filed e is hmem i hi
  obtain ⟨t, t', -, ht, hf'⟩ := h.filed e' is' hmem' i hi'
  obtain rfl : s' = t' := by simpa using hs.symm.trans ht
  obtain ⟨d, hd, rfl⟩ := hf.exists_closest
  obtain ⟨d', hd', rfl⟩ := hf'.exists_closest
  obtain rfl : d = d' := by simpa using hd.symm.trans hd'
  rfl

/-- What splicing the first road touches belongs to no other road. -/
theorem ReadyGroups.disjoint {snaps : Array (Snap K)} {e : EdgeId} {is : List Nat}
    {groups : Groups} (h : ReadyGroups g snaps ((e, is) :: groups) w) :
    ∀ e' is', (e', is') ∈ groups → ∀ i ∈ is', i ∉ is := by
  intro e' is' hmem i hi hi'
  have heq := h.edge_eq List.mem_cons_self (List.mem_cons_of_mem _ hmem) hi' hi
  exact (List.nodup_cons.1 h.keys).1 (List.mem_map.2 ⟨_, hmem, heq.symm⟩)

/-- The other groups are still filed once the first road has been spliced. -/
theorem ReadyGroups.rest {snaps : Array (Snap K)} {e : EdgeId} {is : List Nat} {groups : Groups}
    (h : ReadyGroups g snaps ((e, is) :: groups) w)
    (hothers : ∀ i, i ∉ is → w'.snaps[i]? = w.snaps[i]?) : ReadyGroups g snaps groups w' := by
  refine ⟨(List.nodup_cons.1 h.keys).2, fun e' is' hmem => h.nodup e' is' (by simp [hmem]),
    fun e' is' hmem i hi => ?_⟩
  rw [hothers i (h.disjoint e' is' hmem i hi)]
  exact h.filed e' is' (by simp [hmem]) i hi

/-- The chain of one road threads its snaps. -/
theorem RoadSpliced.threads {snaps : Array (Snap K)} {cs : List (Chain K)} {e : EdgeId}
    {is : List Nat} {closest : DirectedEdge} {shape : Polyline K} {start last : Point K}
    {ss : List (Snap K)} (h : RoadSpliced g cs is w w' closest shape start last ss)
    (hlong : 2 ≤ shape.length)
    (hfiled : ∀ i ∈ is, ∃ s s', snaps[i]? = some s ∧ w.snaps[i]? = some s' ∧ Filed g e s s')
    {final : Array (Snap K)} (hfinal : ∀ i ∈ is, final[i]? = w'.snaps[i]?) :
    closest.edge = e ∧ Threads g snaps final w.overlay.firstNode
      (chainOf w.overlay closest shape start last ss) shape start last ss := by
  obtain ⟨first, s, hhead, hs, hclosest⟩ := h.exists_first
  have hfirst := List.mem_of_mem_head? hhead
  obtain ⟨s₀, s', -, hs', hf⟩ := hfiled first hfirst
  obtain rfl : s = s' := by simpa using hs.symm.trans hs'
  obtain ⟨d, hd, hedge⟩ := hf.exists_closest
  obtain rfl : closest = d := by simpa using hclosest.symm.trans hd
  subst hedge
  -- Sorting has only changed the order of the snaps that were filed.
  refine ⟨rfl, h.shape_eq, h.start_eq, h.last_eq, hlong, fun t ht => ?_, ?_, h.same_base, ?_,
    ?_, ?_, fun j st hst => ?_⟩
  · obtain ⟨keyed, rfl, hall⟩ := h.sorted
    obtain ⟨k, hk, hread, -⟩ := exists_left hall ht
    obtain ⟨t₀, t', ht₀, ht', hft⟩ := hfiled k.2 (List.mem_map_of_mem (List.mem_mergeSort.1 hk))
    obtain rfl : t = t' := by simpa using hread.symm.trans ht'
    exact ⟨_, t₀, ht₀, hft⟩
  · obtain ⟨keyed, -, hall⟩ := h.sorted
    exact ⟨keyed, hall.imp fun _ _ h => h.2⟩
  · rfl
  · rfl
  · exact ⟨s, h.sorted.mem_of_read hfirst hs, hclosest⟩
  · obtain ⟨i, hi, hread, hplaced⟩ := h.placed j st hst
    obtain ⟨s₁, s', hs₁, hs', hf'⟩ := hfiled i hi
    obtain rfl : st.snap = s' := by simpa using hread.symm.trans hs'
    exact ⟨i, s₁, hs₁, hf', (hfinal i hi).trans hplaced⟩

/-- **What becomes of the snaps of a road**: in their order along its shape they take over stops or
are stops; those are numbered from `n`, and the chain through them is among `cs`. -/
structure Resolved (g : RoadGraph K) (before final : Array (Snap K)) (indices : List Nat)
    (firstNode : NodeId) (cs : List (Chain K)) (n : NodeId) (closest : DirectedEdge)
    (shape : Polyline K) (start last : Point K) (ss : List (Snap K)) : Prop where
  shape_eq : closest.shape g = .ok shape
  start_eq : shape.first? = some start
  last_eq : shape.last? = some last
  exists_first : ∃ s ∈ ss, s.closest = some closest
  same_base : ∀ s ∈ ss, ∃ own, s.closest = some own ∧ own.base = closest.base
  sorted : ∃ keyed : List ((Nat × K) × Nat),
    List.Forall₂ (fun k s => along shape s = some k.1)
      (keyed.mergeSort fun (a, _) (b, _) => atOrBefore a b) ss
  node_le : firstNode ≤ n
  settled : ∃ ordered, ordered.Perm indices ∧
    List.Forall₂ (fun i s => before[i]? = some s) ordered ss ∧
    List.Forall₂ (fun i s => final[i]? = some s) ordered
      (settledFrom (baseAnchor closest start) n ss)
  chain : stopsFrom shape (baseAnchor closest start) n ss ≠ [] → ∃ c ∈ cs, c.road = closest ∧
    n = firstNode + c.start ∧
    c.points = (stopsFrom shape (baseAnchor closest start) n ss).map (·.point) ∧
    c.parts = (stopsFrom shape (baseAnchor closest start) n ss).map (·.part) ++
      [partTo shape (lastAnchor (baseAnchor closest start) n ss) false last (shape.length - 2)]

section

variable {before final : Array (Snap K)} {indices : List Nat} {firstNode n : NodeId}
  {cs : List (Chain K)} {closest : DirectedEdge} {shape : Polyline K} {start last : Point K}
  {ss : List (Snap K)}

/-- The account of a road reads and writes its own snaps only. -/
theorem Resolved.congr {before' final' : Array (Snap K)} {cs' : List (Chain K)}
    (h : Resolved g before final indices firstNode cs n closest shape start last ss)
    (hbefore : ∀ i ∈ indices, before[i]? = before'[i]?)
    (hfinal : ∀ i ∈ indices, final[i]? = final'[i]?) (hcs : ∀ c ∈ cs, c ∈ cs') :
    Resolved g before' final' indices firstNode cs' n closest shape start last ss := by
  obtain ⟨ordered, hperm, hread, hsettled⟩ := h.settled
  refine ⟨h.shape_eq, h.start_eq, h.last_eq, h.exists_first, h.same_base, h.sorted, h.node_le,
    ⟨ordered, hperm, read_congr (fun i hi => hbefore i (hperm.mem_iff.1 hi)) hread,
      read_congr (fun i hi => hfinal i (hperm.mem_iff.1 hi)) hsettled⟩, fun hstops => ?_⟩
  obtain ⟨c, hc, hrest⟩ := h.chain hstops
  exact ⟨c, hcs c hc, hrest⟩

/-- What a road that has been spliced makes of its snaps. -/
theorem RoadSpliced.resolved (h : RoadSpliced g cs indices w w' closest shape start last ss)
    {new : List (Chain K)}
    (hnew : stopsOf w.overlay closest shape start ss ≠ [] →
      chainOf w.overlay closest shape start last ss ∈ new) :
    Resolved g w.snaps w'.snaps indices w.overlay.firstNode new
      (w.overlay.firstNode + w.overlay.nodeCount) closest shape start last ss := by
  obtain ⟨first, s, hfirst, hs, hclosest⟩ := h.exists_first
  refine ⟨h.shape_eq, h.start_eq, h.last_eq,
    ⟨s, h.sorted.mem_of_read (List.mem_of_mem_head? hfirst) hs, hclosest⟩, h.same_base, ?_,
    Nat.le_add_right _ _, h.settled, fun hstops => ⟨_, hnew hstops, rfl, rfl, rfl, rfl⟩⟩
  obtain ⟨keyed, -, hall⟩ := h.sorted
  exact ⟨keyed, hall.imp fun _ _ h => h.2⟩

end

/-- What splicing some groups does: it adds chains, at most one for each road. -/
structure GroupsSpliced (g : RoadGraph K) (snaps : Array (Snap K)) (groups : Groups)
    (cs new : List (Chain K)) (w w' : Splicing K) : Prop where
  laid : w'.overlay.Laid (cs ++ new)
  grows : Overlay.Grows w.overlay w'.overlay
  others : ∀ i, (∀ e is, (e, is) ∈ groups → i ∉ is) → w'.snaps[i]? = w.snaps[i]?
  roads : (new.map (·.road.edge)).Sublist (groups.map (·.1))
  resolved : ∀ e is, (e, is) ∈ groups → is ≠ [] → ∃ n closest shape start last ss,
    Resolved g w.snaps w'.snaps is w.overlay.firstNode new n closest shape start last ss
  /-- A chain has the direction of the first snap of its group. -/
  first : ∀ c ∈ new, ∃ is i s, (c.road.edge, is) ∈ groups ∧ is.head? = some i ∧
    w.snaps[i]? = some s ∧ s.closest = some c.road
  threads : ∀ c ∈ new, ∀ final : Array (Snap K),
    (∀ e is, (e, is) ∈ groups → ∀ i ∈ is, final[i]? = w'.snaps[i]?) →
      ∃ shape start last ss, Threads g snaps final w.overlay.firstNode c shape start last ss

theorem spliceGroup_inv {snaps : Array (Snap K)} {e : EdgeId} {is : List Nat}
    {cs : List (Chain K)} {u : Unit} (hlaid : w.overlay.Laid cs) (hnodup : is.Nodup)
    (hfiled : ∀ i ∈ is, ∃ s s', snaps[i]? = some s ∧ w.snaps[i]? = some s' ∧ Filed g e s s')
    (h : Yields (spliceRoad g is) w u w') :
    ∃ new, GroupsSpliced g snaps [(e, is)] cs new w w' := by
  obtain ⟨rfl, rfl⟩ | ⟨closest, shape, start, last, ss, hs⟩ := spliceRoad_inv hlaid hnodup h
  · exact ⟨[], by simpa using hlaid, .refl _, fun _ _ => rfl, by simp, by simp, by simp, by simp⟩
  · have hresolved : ∀ new, (stopsOf w.overlay closest shape start ss ≠ [] →
        chainOf w.overlay closest shape start last ss ∈ new) → ∀ e' is', (e', is') ∈ [(e, is)] →
          is' ≠ [] → ∃ n closest shape start last ss, Resolved g w.snaps w'.snaps is'
            w.overlay.firstNode new n closest shape start last ss := by
      intro new hnew e' is' hmem _
      obtain ⟨-, rfl⟩ : e' = e ∧ is' = is := by simpa using hmem
      exact ⟨_, closest, shape, start, last, ss, hs.resolved hnew⟩
    -- Where all snaps are at the spot of the base node the road is not cut.
    obtain ⟨hstops, hlaid'⟩ | ⟨-, hlong, hlaid'⟩ := hs.laid
    · exact ⟨[], by simpa using hlaid', hs.grows, fun i hi => hs.others i (hi e is (by simp)),
        by simp, hresolved [] fun h => absurd hstops h, by simp, by simp⟩
    · have hedge := (hs.threads hlong hfiled fun _ _ => rfl).1
      refine ⟨[chainOf w.overlay closest shape start last ss], hlaid', hs.grows,
        fun i hi => hs.others i (hi e is (by simp)), ?_, hresolved _ fun _ => by simp,
        fun c hc => ?_, fun c hc final hfinal => ?_⟩
      · rw [← hedge]
        exact List.Sublist.refl _
      · obtain rfl := List.mem_singleton.1 hc
        obtain ⟨first, s, hfirst, hread, hclosest⟩ := hs.exists_first
        exact ⟨is, first, s, List.mem_singleton.2 (Prod.ext hedge rfl), hfirst, hread, hclosest⟩
      · obtain rfl := List.mem_singleton.1 hc
        exact ⟨shape, start, last, ss,
          (hs.threads hlong hfiled (hfinal e is (by simp))).2⟩

/-- A snap that is not in the one group stays as it was. -/
theorem GroupsSpliced.others_of_single {snaps : Array (Snap K)} {e : EdgeId} {is : List Nat}
    {cs new : List (Chain K)} (h : GroupsSpliced g snaps [(e, is)] cs new w w') {i : Nat}
    (hi : i ∉ is) : w'.snaps[i]? = w.snaps[i]? :=
  h.others i fun e' is' hmem => by
    obtain ⟨-, rfl⟩ : e' = e ∧ is' = is := by simpa using hmem
    exact hi

/-- **One road, then the others**, where no snap is filed twice. -/
theorem GroupsSpliced.cons {snaps : Array (Snap K)} {e : EdgeId} {is : List Nat}
    {groups : Groups} {cs first rest : List (Chain K)} {v : Splicing K}
    (hfirst : GroupsSpliced g snaps [(e, is)] cs first w v)
    (hrest : GroupsSpliced g snaps groups (cs ++ first) rest v w')
    (hother : ∀ e' is', (e', is') ∈ groups → ∀ i ∈ is', i ∉ is) :
    GroupsSpliced g snaps ((e, is) :: groups) cs (first ++ rest) w w' := by
  -- The first road leaves the snaps of the others alone, and the others those of the first.
  have hleft : ∀ e' is', (e', is') ∈ groups → ∀ i ∈ is', v.snaps[i]? = w.snaps[i]? :=
    fun e' is' hmem i hi => hfirst.others_of_single (hother e' is' hmem i hi)
  have hkept : ∀ i ∈ is, w'.snaps[i]? = v.snaps[i]? := fun i hi =>
    hrest.others i fun e' is' hmem hi' => hother e' is' hmem i hi' hi
  refine {
    laid := List.append_assoc .. ▸ hrest.laid
    grows := hfirst.grows.trans hrest.grows
    others := fun i hi => ?others
    roads := ?roads
    resolved := fun e' is' hmem hne => ?resolved
    first := fun c hc => ?first
    threads := fun c hc final hfinal => ?threads }
  case others =>
    rw [hrest.others i fun e' is' hmem => hi e' is' (by simp [hmem])]
    exact hfirst.others_of_single (hi e is (by simp))
  case roads =>
    rw [List.map_append, List.map_cons, ← List.singleton_append]
    exact hfirst.roads.append hrest.roads
  case resolved =>
    rcases List.mem_cons.1 hmem with heq | hmem
    · obtain ⟨rfl, rfl⟩ : e' = e ∧ is' = is := by simpa using heq
      obtain ⟨n, closest, shape, start, last, ss, hs⟩ := hfirst.resolved e' is' (by simp) hne
      exact ⟨n, closest, shape, start, last, ss, hs.congr (fun _ _ => rfl)
        (fun i hi => (hkept i hi).symm) fun c hc => List.mem_append_left _ hc⟩
    · obtain ⟨n, closest, shape, start, last, ss, hs⟩ := hrest.resolved e' is' hmem hne
      rw [hfirst.grows.firstNode] at hs
      exact ⟨n, closest, shape, start, last, ss, hs.congr (hleft e' is' hmem) (fun _ _ => rfl)
        fun c hc => List.mem_append_right _ hc⟩
  case first =>
    obtain hc | hc := List.mem_append.1 hc
    · obtain ⟨is', i, s, hmem, hrest⟩ := hfirst.first c hc
      exact ⟨is', i, s, List.mem_cons.2 (.inl (List.mem_singleton.1 hmem)), hrest⟩
    · obtain ⟨is', i, s, hmem, hhead, hread, hclosest⟩ := hrest.first c hc
      rw [hleft _ _ hmem i (List.mem_of_mem_head? hhead)] at hread
      exact ⟨is', i, s, List.mem_cons_of_mem _ hmem, hhead, hread, hclosest⟩
  case threads =>
    obtain hc | hc := List.mem_append.1 hc
    · refine hfirst.threads c hc final fun e' is' hmem i hi => ?_
      obtain ⟨rfl, rfl⟩ : e' = e ∧ is' = is := by simpa using hmem
      exact (hfinal e' is' (by simp) i hi).trans (hkept i hi)
    · have := hrest.threads c hc final fun e' is' hmem => hfinal e' is' (by simp [hmem])
      rwa [hfirst.grows.firstNode] at this

/-- **Splicing the roads of all groups.** -/
theorem spliceGroups_inv {snaps : Array (Snap K)} {groups : Groups} {cs : List (Chain K)}
    {u : Unit} (hready : ReadyGroups g snaps groups w) (hlaid : w.overlay.Laid cs)
    (h : Yields (groups.forM fun (_, is) => spliceRoad g is) w u w') :
    ∃ new, GroupsSpliced g snaps groups cs new w w' := by
  induction groups generalizing w cs with
  | nil =>
    obtain ⟨rfl, rfl⟩ := yields_pure.1 h
    exact ⟨[], by simpa using hlaid, .refl _, fun _ _ => rfl, by simp, by simp, by simp, by simp⟩
  | cons group groups ih =>
    obtain ⟨e, is⟩ := group
    have h : Yields (spliceRoad g is >>= fun _ => groups.forM fun (_, is) => spliceRoad g is) w u
      w' := h
    obtain ⟨_, v, hroad, h⟩ := yields_bind.1 h
    obtain ⟨first, hfirst⟩ := spliceGroup_inv hlaid (hready.nodup e is (by simp))
      (hready.filed e is (by simp)) hroad
    obtain ⟨rest, hrest⟩ := ih (hready.rest fun _ => hfirst.others_of_single) hfirst.laid h
    exact ⟨first ++ rest, hfirst.cons hrest hready.disjoint⟩

/-! ## §5. The overlay. -/

/-- **The steps of building an overlay**: the snaps are filed, each road gets its chain, and the
deltas are built. -/
structure BuildSteps (g : RoadGraph K) (snaps final : Array (Snap K)) (o : Overlay K)
    (groups : Groups) (prepared spliced : Splicing K) (cs : List (Chain K)) : Prop where
  grouped : Grouped g snaps snaps.size groups prepared
  firstNode : prepared.overlay.firstNode = g.nodeCount
  roads : GroupsSpliced g snaps groups [] cs prepared spliced
  firstEdge : spliced.overlay.firstEdge = g.edgeCount
  empty : spliced.overlay.deltas = ∅
  final_eq : spliced.snaps = final
  deltas : spliced.overlay.buildDeltas = .ok o

theorem Grouped.ready {snaps : Array (Snap K)} {n : Nat} {groups : Groups}
    (h : Grouped g snaps n groups w) : ReadyGroups g snaps groups w :=
  ⟨h.keys, h.nodup, fun e is hmem i hi => (h.filed e is hmem i hi).2⟩

theorem exists_buildSteps {snaps final : Array (Snap K)} {o : Overlay K}
    (h : Overlay.build g snaps = (.ok o, final)) :
    ∃ groups prepared spliced cs, BuildSteps g snaps final o groups prepared spliced cs := by
  unfold Overlay.build at h
  cases hmissing : snaps.findIdx? (·.closest.isNone) with
  | some index => simp [hmissing] at h
  | none =>
    simp only [hmissing] at h
    generalize hrun : (build g).run.run ⟨Overlay.empty g.nodeCount g.edgeCount, snaps⟩ = out at h
    obtain ⟨result, work⟩ := out
    obtain ⟨rfl, rfl⟩ : result = .ok o ∧ work.snaps = final := by simpa using h
    have hbuild : Yields (build g) ⟨Overlay.empty g.nodeCount g.edgeCount, snaps⟩ o work := hrun
    unfold build at hbuild
    simp only [yields_bind, yields_get, yields_lift] at hbuild
    obtain ⟨_, _, ⟨rfl, rfl⟩, groups, v, hgroups, _, v', hchains, _, _, ⟨rfl, rfl⟩, hdeltas, rfl⟩ :=
      hbuild
    obtain ⟨hgrouped, hoverlay⟩ := grouped_all hgroups
    have hempty : v.overlay.Laid [] := hoverlay ▸ Overlay.laid_empty g.nodeCount g.edgeCount
    obtain ⟨cs, hcs⟩ := spliceGroups_inv hgrouped.ready hempty hchains
    refine ⟨groups, v, _, cs, hgrouped, ?_, hcs, ?_, ?_, rfl, hdeltas⟩
    · rw [hoverlay]
      rfl
    · rw [hcs.grows.firstEdge, hoverlay]
      rfl
    · rw [hcs.grows.deltas, hoverlay]
      rfl

section

variable {snaps final : Array (Snap K)} {o : Overlay K} {groups : Groups}
  {prepared spliced : Splicing K} {cs : List (Chain K)}

/-- Virtual nodes are counted after those of the graph. -/
theorem BuildSteps.firstNode_eq (h : BuildSteps g snaps final o groups prepared spliced cs) :
    spliced.overlay.firstNode = g.nodeCount := by
  rw [h.roads.grows.firstNode, h.firstNode]

/-- **No two chains lie on one road.** -/
theorem BuildSteps.distinct (h : BuildSteps g snaps final o groups prepared spliced cs) :
    (cs.map (·.road.edge)).Nodup := h.roads.roads.nodup h.grouped.keys

theorem BuildSteps.threads (h : BuildSteps g snaps final o groups prepared spliced cs) :
    ∀ c ∈ cs, ∃ shape start last ss, Threads g snaps final g.nodeCount c shape start last ss := by
  intro c hc
  have hthreads := h.roads.threads c hc final fun _ _ _ _ _ => by rw [h.final_eq]
  rwa [h.firstNode] at hthreads

end

end RoadSplice.Splicing

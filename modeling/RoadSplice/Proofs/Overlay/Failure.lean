/-
  RoadSplice.Proofs.Overlay.Failure — how the work on an overlay can fail.

  `FailsOnly E` says of some work that all its failures are of a kind `E`.  It goes through the
  whole construction step by step: a step fails as `E` allows, and what follows the step does so
  on every state that the step can leave behind.  With `E` empty the work succeeds; with `E` the
  refusals that name a cause, it never reads outside a table.
-/
import RoadSplice.Proofs.Overlay.Representation

namespace RoadSplice.Splicing

variable {K : Type}

/-! ## §1. Failures. -/

section

variable {α β : Type} {E : Error K → Prop} {w : Splicing K}

/-- **Work fails only as allowed.** -/
def FailsOnly (E : Error K → Prop) (x : SpliceM K α) (w : Splicing K) : Prop :=
  ∀ e, (x.run.run w).1 = .error e → E e

/-- Work that succeeds does not fail. -/
theorem Succeeds.failsOnly {x : SpliceM K α} (h : Succeeds x w) : FailsOnly E x w := by
  intro e he
  obtain ⟨a, w', hrun⟩ := h
  rw [show x.run.run w = (.ok a, w') from hrun] at he
  cases he

theorem failsOnly_pure (a : α) : FailsOnly E (pure a) w := (succeeds_pure a).failsOnly

theorem failsOnly_throw {e : Error K} : FailsOnly E (throw e : SpliceM K α) w ↔ E e := by
  show (∀ e', (Except.error e : Except (Error K) α) = .error e' → E e') ↔ E e
  constructor
  · intro h
    exact h e rfl
  · intro h e' he
    cases he
    exact h

/-- **One step after the other.** -/
theorem failsOnly_bind {x : SpliceM K α} {f : α → SpliceM K β} :
    FailsOnly E (x >>= f) w ↔
      FailsOnly E x w ∧ ∀ a w', Yields x w a w' → FailsOnly E (f a) w' := by
  unfold FailsOnly Yields
  rw [run_bind]
  rcases x.run.run w with ⟨r, v⟩
  cases r with
  | error e =>
    show (∀ e', (Except.error e : Except (Error K) β) = .error e' → E e') ↔ _
    constructor
    · intro h
      refine ⟨fun e' he => ?_, fun a w' ha => ?_⟩
      · cases he
        exact h e rfl
      · cases ha
    · intro h e' he
      cases he
      exact h.1 e rfl
  | ok a =>
    show (∀ e', ((f a).run.run v).1 = .error e' → E e') ↔ _
    constructor
    · intro h
      refine ⟨fun e' he => ?_, fun a' w' ha => ?_⟩
      · cases he
      · cases ha
        exact h
    · intro h
      exact h.2 a v rfl

theorem failsOnly_lift {r : Except (Error K) α} :
    FailsOnly E (lift r) w ↔ ∀ e, r = .error e → E e := Iff.rfl

/-- A snap that is there can be read. -/
theorem failsOnly_snap {i : Nat} {s : Snap K} (hs : w.snaps[i]? = some s) :
    FailsOnly E (snap i) w :=
  Succeeds.failsOnly ⟨s, w, yields_snap.2 ⟨hs, rfl⟩⟩

theorem failsOnly_closestOf {s : Snap K} {i : Nat}
    (h : s.closest = none → E (.missingClosestEdge i)) : FailsOnly E (closestOf s i) w := by
  unfold closestOf
  cases hs : s.closest with
  | none => exact failsOnly_throw.2 (h hs)
  | some d => exact failsOnly_pure d

theorem failsOnly_setSnap (i : Nat) (s : Snap K) : FailsOnly E (setSnap i s) w :=
  Succeeds.failsOnly ⟨(), _, yields_setSnap.2 rfl⟩

end

/-! ## §2. Shapes. -/

variable [Scalar K] {g : RoadGraph K} {E : Error K → Prop} {w w' : Splicing K}

/-- **The shape of a road** has its two ends at least. -/
theorem two_le_length {d : DirectedEdge} {shape : Polyline K} (h : d.shape g = .ok shape) :
    2 ≤ shape.length := by
  unfold DirectedEdge.shape RoadGraph.edgeNodes at h
  cases hr : g.roads[d.edge]? with
  | none => simp [hr, Except.map] at h
  | some r =>
    simp only [hr, Except.map, Except.ok.injEq] at h
    subst h
    unfold RoadGraph.fullGeometry
    simp only [hr]
    split <;> simp [Polyline.length, Polyline.reverse]

omit [Scalar K] in
theorem exists_ends {shape : Polyline K} (h : 2 ≤ shape.length) :
    (∃ start, shape.first? = some start) ∧ ∃ last, shape.last? = some last := by
  have hne : shape.points ≠ [] := by
    intro hnil
    simp [Polyline.length, hnil] at h
  exact ⟨⟨_, List.head?_eq_some_head hne⟩, ⟨_, List.getLast?_eq_some_getLast hne⟩⟩

/-- Every snap has a place along a shape that has points. -/
theorem exists_along {shape : Polyline K} (h : 2 ≤ shape.length) (s : Snap K) :
    ∃ key, along shape s = some key := by
  have hlt : min s.wayIndex (shape.length - 1) < shape.points.length := by
    have hlen : shape.points.length = shape.length := rfl
    omega
  unfold along Polyline.get?
  rw [List.getElem?_eq_getElem hlt]
  exact ⟨_, rfl⟩

/-! ## §3. One road. -/

/-- **Linking a snap** fails only if its road begins at another node. -/
theorem failsOnly_link {closest : DirectedEdge} (shape : Polyline K) (a : Anchor K) {i : Nat}
    {s : Snap K} {own : DirectedEdge} (hs : w.snaps[i]? = some s) (hown : s.closest = some own)
    (hbase : own.base ≠ closest.base →
      E (.inconsistentBaseNode closest.edge closest.base own.base)) :
    FailsOnly E (link closest shape a i) w := by
  by_cases heq : own.base = closest.base
  · exact (succeeds_link shape a hs hown heq).failsOnly
  · unfold link
    rw [failsOnly_bind]
    refine ⟨failsOnly_snap hs, fun t v ht => ?_⟩
    obtain ⟨ht, rfl⟩ := yields_snap.1 ht
    obtain rfl : s = t := Option.some.inj (hs.symm.trans ht)
    rw [failsOnly_bind]
    refine ⟨failsOnly_closestOf fun hnone => by simp [hown] at hnone, fun d v' hd => ?_⟩
    obtain ⟨hd', rfl⟩ := yields_closestOf.1 hd
    obtain rfl : own = d := Option.some.inj (hown.symm.trans hd')
    simp only [ne_eq, heq, not_false_eq_true, if_true]
    rw [failsOnly_bind]
    exact ⟨failsOnly_throw.2 (hbase heq), fun _ _ h => absurd h yields_throw⟩

/-- What is asked of the snaps of a road. -/
structure GroupAllowed (E : Error K → Prop) (g : RoadGraph K) (w : Splicing K)
    (indices : List Nat) : Prop where
  nodup : indices.Nodup
  read : ∀ i ∈ indices, ∃ s own, w.snaps[i]? = some s ∧ s.closest = some own ∧
    ∀ e, own.shape g = .error e → E e
  base : ∀ i ∈ indices, ∀ j ∈ indices, ∀ s t d d', w.snaps[i]? = some s → w.snaps[j]? = some t →
    s.closest = some d → t.closest = some d' → d'.base ≠ d.base →
      E (.inconsistentBaseNode d.edge d.base d'.base)

theorem failsOnly_links {closest : DirectedEdge} (shape : Polyline K) {indices : List Nat}
    (a : Anchor K) (hnodup : indices.Nodup)
    (h : ∀ i ∈ indices, ∃ s own, w.snaps[i]? = some s ∧ s.closest = some own ∧
      (own.base ≠ closest.base → E (.inconsistentBaseNode closest.edge closest.base own.base))) :
    FailsOnly E (indices.foldlM (link closest shape) a) w := by
  induction indices generalizing w a with
  | nil => exact failsOnly_pure a
  | cons i indices ih =>
    obtain ⟨hi, hnodup⟩ := List.nodup_cons.1 hnodup
    obtain ⟨s, own, hs, hown, hbase⟩ := h i (by simp)
    rw [List.foldlM_cons, failsOnly_bind]
    refine ⟨failsOnly_link shape a hs hown hbase, fun b v hlink => ih b hnodup fun j hj => ?_⟩
    -- Linking one snap leaves the others as they are.
    have hne : i ≠ j := by
      rintro rfl
      exact hi hj
    rw [link_others hne hlink]
    exact h j (by simp [hj])

/-- **Splicing a road** fails only as its snaps allow. -/
theorem failsOnly_spliceRoad {indices : List Nat} (h : GroupAllowed E g w indices) :
    FailsOnly E (spliceRoad g indices) w := by
  unfold spliceRoad
  cases hfirst : indices.head? with
  | none => exact failsOnly_pure ()
  | some first =>
    have hmem : first ∈ indices := List.mem_of_mem_head? hfirst
    obtain ⟨s, closest, hs, hclosest, hshape⟩ := h.read first hmem
    simp only [failsOnly_bind, yields_snap, yields_closestOf, yields_lift]
    refine ⟨failsOnly_snap hs, ?_⟩
    rintro t v ⟨ht, rfl⟩
    obtain rfl : s = t := Option.some.inj (hs.symm.trans ht)
    refine ⟨failsOnly_closestOf fun hnone => by simp [hclosest] at hnone, ?_⟩
    rintro d v' ⟨hd, rfl⟩
    obtain rfl : closest = d := Option.some.inj (hclosest.symm.trans hd)
    refine ⟨failsOnly_lift.2 hshape, ?_⟩
    rintro shape v ⟨hok, rfl⟩
    -- The shape has two ends, so nothing is read outside of it.
    have hlong := two_le_length hok
    obtain ⟨⟨start, hstart⟩, last, hlast⟩ := exists_ends hlong
    simp only [hstart, hlast, failsOnly_bind]
    have hread : ∀ i ∈ indices, ∃ s key, v.snaps[i]? = some s ∧ along shape s = some key := by
      intro i hi
      obtain ⟨s, -, hs, -⟩ := h.read i hi
      obtain ⟨key, hkey⟩ := exists_along hlong s
      exact ⟨s, key, hs, hkey⟩
    refine ⟨(succeeds_sortAlong hread).failsOnly, fun ordered v' hsort => ?_⟩
    obtain ⟨rfl, -⟩ := sortAlong_inv hsort
    have hperm := sortAlong_perm hsort
    refine ⟨failsOnly_links shape _ (hperm.nodup_iff.2 h.nodup) fun i hi => ?_, ?_⟩
    · have hi : i ∈ indices := hperm.mem_iff.1 hi
      obtain ⟨t, own, ht, hown, -⟩ := h.read i hi
      exact ⟨t, own, ht, hown, h.base first hmem i hi s t closest own hs ht hclosest hown⟩
    · intro a v'' _
      split
      · rw [if_neg (Nat.not_lt.2 hlong)]
        exact Succeeds.failsOnly ⟨(), _, yields_pushPiece.2 rfl⟩
      · exact failsOnly_pure ()

/-! ## §4. All roads. -/

/-- **What is asked of snaps** so that the work on them fails only in ways that `E` allows. -/
structure Allowed (E : Error K → Prop) (g : RoadGraph K) (snaps : Array (Snap K)) : Prop where
  closest : ∀ (i : Nat) s, snaps[i]? = some s → s.closest = none → ∀ j, E (.missingClosestEdge j)
  normalized : ∀ (i : Nat) s e, snaps[i]? = some s → s.position ≠ .tower →
    s.normalized g = .error e → E e
  located : ∀ (i : Nat) s t e, snaps[i]? = some s → s.position ≠ .tower →
    s.normalized g = .ok t → t.point.isNone = true → t.located g = .error e → E e
  shape : ∀ (i : Nat) s s' d e, snaps[i]? = some s → Filed g d.edge s s' → s'.closest = some d →
    d.shape g = .error e → E e
  base : ∀ (i j : Nat) s s' t t' d d', snaps[i]? = some s → snaps[j]? = some t →
    Filed g d.edge s s' → Filed g d'.edge t t' → s'.closest = some d → t'.closest = some d' →
      d.edge = d'.edge → d'.base ≠ d.base → E (.inconsistentBaseNode d.edge d.base d'.base)

section

variable {snaps : Array (Snap K)}

theorem failsOnly_prepare (h : Allowed E g snaps) {i : Nat} {s : Snap K}
    (hs : snaps[i]? = some s) (hw : w.snaps[i]? = some s) (groups : Groups) :
    FailsOnly E (prepare g groups i) w := by
  unfold prepare
  simp only [failsOnly_bind, yields_snap]
  refine ⟨failsOnly_snap hw, ?_⟩
  rintro t v ⟨ht, rfl⟩
  obtain rfl : s = t := Option.some.inj (hw.symm.trans ht)
  by_cases hpos : s.position = .tower
  · rw [if_pos hpos]
    exact failsOnly_pure groups
  · rw [if_neg hpos]
    simp only [failsOnly_bind, yields_lift]
    refine ⟨failsOnly_lift.2 fun e he => h.normalized i s e hs hpos he, ?_⟩
    rintro turned v' ⟨hturned, rfl⟩
    refine ⟨failsOnly_setSnap i turned, fun _ v' _ => ?_⟩
    -- A snap keeps its road when it is turned and located.
    have hfile : ∀ s' v', (turned.closest = s'.closest) → FailsOnly E (do
        setSnap i s'
        return file (← closestOf s' i).edge i groups) v' := by
      intro s' v' hclosest
      rw [failsOnly_bind]
      refine ⟨failsOnly_setSnap i s', fun _ v'' _ => ?_⟩
      rw [failsOnly_bind]
      refine ⟨failsOnly_closestOf fun hnone => ?_, fun _ _ _ => failsOnly_pure _⟩
      refine h.closest i s hs ?_ i
      rcases normalized_cases hturned with ⟨rfl, -⟩ | ⟨d, shape, index, -, -, -, -, rfl⟩
      · exact hclosest.trans hnone
      · cases hclosest.trans hnone
    split
    · rename_i hnone
      rw [failsOnly_bind]
      refine ⟨failsOnly_lift.2 fun e he => h.located i s turned e hs hpos hturned hnone he, ?_⟩
      intro s' v'' hs'
      obtain ⟨hloc, rfl⟩ := yields_lift.1 hs'
      obtain ⟨-, -, -, -, -, -, hclosest, -⟩ := located_inv hloc
      exact hfile s' v'' hclosest.symm
    · exact hfile turned v' rfl

theorem failsOnly_prepareAll (h : Allowed E g snaps) (o : Overlay K) {n : Nat}
    (hn : n ≤ snaps.size) :
    FailsOnly E ((List.range n).foldlM (prepare g) []) ⟨o, snaps⟩ := by
  induction n with
  | zero => exact failsOnly_pure []
  | succ n ih =>
    rw [List.range_succ, List.foldlM_append, failsOnly_bind]
    refine ⟨ih (Nat.le_of_succ_le hn), fun groups v hv => ?_⟩
    have hs : snaps[n]? = some snaps[n] := Array.getElem?_eq_getElem hn
    have hw : v.snaps[n]? = some snaps[n] := ((grouped_all hv).1.waiting n (Nat.le_refl n)).trans hs
    rw [List.foldlM_cons, failsOnly_bind]
    exact ⟨failsOnly_prepare h hs hw groups, fun groups' _ _ => failsOnly_pure groups'⟩

/-- The snaps of a group are as is asked of the snaps of a road. -/
theorem Allowed.group (h : Allowed E g snaps) {groups : Groups}
    (hready : ReadyGroups g snaps groups w) {e : EdgeId} {is : List Nat}
    (hmem : (e, is) ∈ groups) : GroupAllowed E g w is := by
  refine ⟨hready.nodup e is hmem, fun i hi => ?_, fun i hi j hj s t d d' hs ht hd hd' hne => ?_⟩
  · obtain ⟨s₀, s, hs₀, hs, hf⟩ := hready.filed e is hmem i hi
    obtain ⟨d, hd, rfl⟩ := hf.exists_closest
    exact ⟨s, d, hs, hd, fun e he => h.shape i s₀ s d e hs₀ hf hd he⟩
  · obtain ⟨s₀, s', hs₀, hs', hf⟩ := hready.filed e is hmem i hi
    obtain ⟨t₀, t', ht₀, ht', hf'⟩ := hready.filed e is hmem j hj
    obtain rfl : s = s' := Option.some.inj (hs.symm.trans hs')
    obtain rfl : t = t' := Option.some.inj (ht.symm.trans ht')
    obtain ⟨own, hown, hedge⟩ := hf.exists_closest
    obtain ⟨own', hown', hedge'⟩ := hf'.exists_closest
    obtain rfl : d = own := Option.some.inj (hd.symm.trans hown)
    obtain rfl : d' = own' := Option.some.inj (hd'.symm.trans hown')
    refine h.base i j s₀ s t₀ t d d' hs₀ ht₀ ?_ ?_ hd hd' (hedge.trans hedge'.symm) hne
    · rwa [hedge]
    · rwa [hedge']

/-- **Splicing the roads of all groups** fails only as the snaps allow. -/
theorem failsOnly_groups (h : Allowed E g snaps) {groups : Groups} {cs : List (Chain K)}
    (hready : ReadyGroups g snaps groups w) (hlaid : w.overlay.Laid cs) :
    FailsOnly E (groups.forM fun (_, is) => spliceRoad g is) w := by
  induction groups generalizing w cs with
  | nil => exact failsOnly_pure ()
  | cons group groups ih =>
    obtain ⟨e, is⟩ := group
    show FailsOnly E (spliceRoad g is >>= fun _ => groups.forM fun (_, is) => spliceRoad g is) w
    rw [failsOnly_bind]
    refine ⟨failsOnly_spliceRoad (h.group hready List.mem_cons_self), fun u v hroad => ?_⟩
    obtain ⟨new, hnew⟩ := spliceGroup_inv hlaid (hready.nodup e is (by simp))
      (hready.filed e is (by simp)) hroad
    refine ih (hready.rest fun i hi => hnew.others i fun e' is' hmem => ?_) hnew.laid
    obtain ⟨rfl, rfl⟩ : e' = e ∧ is' = is := by simpa using hmem
    exact hi

/-- **All the work on some snaps** fails only as they allow. -/
theorem failsOnly_build (h : Allowed E g snaps) : FailsOnly E (build g) ⟨uncut g, snaps⟩ := by
  unfold build
  simp only [failsOnly_bind, yields_get]
  refine ⟨Succeeds.failsOnly ⟨_, _, yields_get.2 ⟨rfl, rfl⟩⟩, ?_⟩
  rintro v v' ⟨rfl, rfl⟩
  refine ⟨failsOnly_prepareAll h _ (Nat.le_refl _), fun groups v hgroups => ?_⟩
  obtain ⟨hgrouped, hoverlay⟩ := grouped_all hgroups
  have hempty : v.overlay.Laid [] := hoverlay ▸ Overlay.laid_empty g.nodeCount g.edgeCount
  refine ⟨failsOnly_groups h hgrouped.ready hempty, fun u v' hchains => ?_⟩
  obtain ⟨cs, hcs⟩ := spliceGroups_inv hgrouped.ready hempty hchains
  refine ⟨Succeeds.failsOnly ⟨_, _, yields_get.2 ⟨rfl, rfl⟩⟩, ?_⟩
  rintro _ done ⟨rfl, rfl⟩
  -- The chains are on different roads, so the tables hang together and no delta is missing.
  have hdeltas : done.overlay.deltas = ∅ := by
    rw [hcs.grows.deltas, hoverlay]
    rfl
  obtain ⟨o, ho⟩ := (hcs.laid.wellLinked (hcs.roads.nodup hgrouped.keys)).exists_buildDeltas hdeltas
  exact failsOnly_lift.2 fun e he => by simp [ho] at he

/-- **Building an overlay** fails only as the snaps allow. -/
theorem build_failsOnly (h : Allowed E g snaps) {e : Error K}
    (he : (Overlay.build g snaps).1 = .error e) : E e := by
  unfold Overlay.build at he
  cases hmissing : snaps.findIdx? (·.closest.isNone) with
  | some index =>
    simp only [hmissing] at he
    obtain rfl : Error.missingClosestEdge index = e := by simpa using he
    obtain ⟨hlt, hnone, -⟩ := Array.findIdx?_eq_some_iff_getElem.1 hmissing
    exact h.closest index snaps[index] (Array.getElem?_eq_getElem hlt) (by simpa using hnone) index
  | none =>
    simp only [hmissing] at he
    exact failsOnly_build h e he

end

/-! ## §5. Refusals. -/

/-- The failures that name what is wrong with a snap. -/
def Refusal : Error K → Prop
  | .missingClosestEdge _ => True
  | .edgeNotFound _ => True
  | .invalidWayIndex _ _ _ => True
  | .inconsistentBaseNode _ _ _ => True
  | _ => False

theorem refusal_of_shape {d : DirectedEdge} {e : Error K} (h : d.shape g = .error e) :
    Refusal e := by
  unfold DirectedEdge.shape RoadGraph.edgeNodes at h
  cases hr : g.roads[d.edge]? with
  | none =>
    simp only [hr, Except.map, Except.error.injEq] at h
    exact h ▸ trivial
  | some r => simp [hr, Except.map] at h

/-- Whether a road has to be turned round is told from points that are there. -/
theorem refusal_of_runsBackwards {d : DirectedEdge} {e : Error K}
    (h : Snap.runsBackwards g d = .error e) : Refusal e := by
  unfold Snap.runsBackwards at h
  split at h
  · rcases except_bind_error.1 h with h | ⟨shape, -, h⟩
    · exact refusal_of_shape h
    · split at h
      · rename_i hlong
        have hlong : 3 < shape.points.length := hlong
        have hfirst : shape.get? 1 = some shape.points[1] := List.getElem?_eq_getElem _
        have hlast : shape.get? (shape.length - 2) = some shape.points[shape.points.length - 2] :=
          List.getElem?_eq_getElem _
        simp only [hfirst, hlast] at h
        cases h
      · cases h
  · cases h

theorem refusal_of_normalized {s : Snap K} {e : Error K} (h : s.normalized g = .error e) :
    Refusal e := by
  unfold Snap.normalized at h
  cases hd : s.closest with
  | none =>
    simp only [hd] at h
    cases h
  | some d =>
    simp only [hd] at h
    rcases except_bind_error.1 h with h | ⟨turn, -, h⟩
    · exact refusal_of_runsBackwards h
    · split at h
      · rcases except_bind_error.1 h with h | ⟨shape, -, h⟩
        · exact refusal_of_shape h
        · cases hindex : s.indexFromEnd shape.length with
          | some index =>
            simp only [hindex] at h
            cases h
          | none =>
            simp only [hindex] at h
            cases h
            trivial
      · cases h

theorem refusal_of_located {s : Snap K} {e : Error K} (h : s.located g = .error e) :
    Refusal e := by
  unfold Snap.located at h
  cases hd : s.closest with
  | none =>
    simp only [hd] at h
    cases h
    trivial
  | some d =>
    simp only [hd] at h
    rcases except_bind_error.1 h with h | ⟨shape, -, h⟩
    · exact refusal_of_shape h
    · cases hhere : shape.get? s.wayIndex with
      | none =>
        simp only [hhere] at h
        cases h
        trivial
      | some here =>
        simp only [hhere] at h
        cases hpos : s.position with
        | tower =>
          simp only [hpos] at h
          cases h
        | pillar =>
          simp only [hpos] at h
          cases h
        | edge =>
          simp only [hpos] at h
          cases hnext : shape.get? (s.wayIndex + 1) with
          | none =>
            simp only [hnext] at h
            cases h
            trivial
          | some next =>
            simp only [hnext] at h
            cases h

/-- **Whatever the snaps are**, the work on them fails only with a refusal. -/
theorem allowed_refusals (g : RoadGraph K) (snaps : Array (Snap K)) : Allowed Refusal g snaps where
  closest _ _ _ _ _ := trivial
  normalized _ _ _ _ _ h := refusal_of_normalized h
  located _ _ _ _ _ _ _ _ h := refusal_of_located h
  shape _ _ _ _ _ _ _ _ h := refusal_of_shape h
  base _ _ _ _ _ _ _ _ _ _ _ _ _ _ _ _ := trivial

end RoadSplice.Splicing

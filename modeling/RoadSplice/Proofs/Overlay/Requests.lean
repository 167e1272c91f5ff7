/-
  RoadSplice.Proofs.Overlay.Requests — the snaps of a request in another order.

  A request in another order has the same groups, but for the numbers of its snaps.  Snaps that are
  tied on a road are at one place, so both requests sort the places of each road alike, whatever the
  order in which the snaps came.
-/
import Mathlib.Logic.Equiv.Defs
import RoadSplice.Proofs.Overlay.Computed
import RoadSplice.Proofs.Overlay.Ends

namespace RoadSplice.Splicing

variable {K : Type} [Scalar K] {g : RoadGraph K}

/-! ## §1. Snaps that can be put in one order. -/

/-- **Two snaps are tied**: turned to one direction of their road, neither lies behind the other. -/
def Tied (g : RoadGraph K) (s t : Snap K) : Prop :=
  s.position ≠ .tower ∧ t.position ≠ .tower ∧ ∃ s' t' d shape, s.normalized g = .ok s' ∧
    t.normalized g = .ok t' ∧ s'.closest = some d ∧ t'.closest = some d ∧ d.shape g = .ok shape ∧
    NotBehind shape s' t' ∧ NotBehind shape t' s'

/-- **Snaps whose order can be told**: they lie on roads of the graph and have measured points; those
on a loop share its direction; and two that are tied have one position and one point. -/
structure Orderable (g : RoadGraph K) (snaps : Array (Snap K)) : Prop where
  onRoads : ∀ s ∈ snaps, ∃ d, s.closest = some d ∧ g.HasDirection d
  measured : ∀ s ∈ snaps, s.Measured
  loops : ∀ (i j : Nat) s t, snaps[i]? = some s → snaps[j]? = some t →
    ∀ d e, s.closest = some d → t.closest = some e → d.edge = e.edge → d.base = d.adj → d = e
  ties : ∀ (i j : Nat) s t, i ≠ j → snaps[i]? = some s → snaps[j]? = some t → Tied g s t →
    s.position = t.position ∧ s.point = t.point

/-- **Snaps whose order does not matter**: besides, the point of two tied snaps coincides with
itself. -/
structure Sortable (g : RoadGraph K) (snaps : Array (Snap K)) : Prop
    extends Orderable g snaps where
  spots : ∀ (i j : Nat) s t, i ≠ j → snaps[i]? = some s → snaps[j]? = some t → Tied g s t →
    ∀ p, s.point = some p → p.coincides p = true

variable {snaps snaps' final final' : Array (Snap K)} {o o' : Overlay K} {groups groups' : Groups}
  {prepared spliced prepared' spliced' : Splicing K} {cs cs' : List (Chain K)} {e : EdgeId}
  {is : List Nat} {n : NodeId} {closest : DirectedEdge} {shape : Polyline K} {start last : Point K}
  {ss : List (Snap K)}

/-- A turned snap is as far from its fix as before. -/
theorem measured_of_normalized {s t : Snap K} (h : s.Measured) (ht : s.normalized g = .ok t) :
    t.Measured := by
  rcases normalized_cases ht with ⟨rfl, -⟩ | ⟨d, shape, index, -, -, -, -, rfl⟩
  · exact h
  · obtain ⟨p, hp⟩ := h.exists_point
    have hdistance := congrArg Snap.distance h.measured_eq
    refine ⟨⟨p, hp⟩, ?_⟩
    unfold Snap.measured at hdistance ⊢
    cases s
    simp_all

/-- A snap that has a point is only turned when it is prepared. -/
theorem Filed.normalized_eq {s s' : Snap K} (h : Filed g e s s') (hs : s.Measured) :
    s.normalized g = .ok s' := by
  obtain ⟨p, hp⟩ := hs.exists_point
  obtain ⟨turned, hturned, ⟨hnone, -⟩ | ⟨-, rfl⟩⟩ := h.prepared
  · rw [(Snap.point_normalized hturned).1, hp] at hnone
    cases hnone
  · exact hturned

theorem Sortable.hasDirection (h : Sortable g snaps) : OnRoads g snaps := by
  intro i s hs d hd
  obtain ⟨d', hd', hroad⟩ := h.onRoads s (Array.mem_of_getElem? hs)
  exact Option.some.inj (hd.symm.trans hd') ▸ hroad

/-! ## §2. The groups. -/

section

variable (h : BuildSteps g snaps final o groups prepared spliced cs) (hsnaps : Sortable g snaps)

include h hsnaps

/-- **The group of a road** holds the snaps that are turned to it. -/
theorem BuildSteps.mem_group_iff (hmem : (e, is) ∈ groups) {i : Nat} :
    i ∈ is ↔ ∃ s t d, snaps[i]? = some s ∧ s.position ≠ .tower ∧ s.normalized g = .ok t ∧
      t.closest = some d ∧ d.edge = e := by
  constructor
  · intro hi
    obtain ⟨-, s, t, hs, -, hf⟩ := h.grouped.filed e is hmem i hi
    obtain ⟨d, hd, hedge⟩ := hf.exists_closest
    exact ⟨s, t, d, hs, hf.not_tower_before,
      hf.normalized_eq (hsnaps.measured s (Array.mem_of_getElem? hs)), hd, hedge⟩
  · rintro ⟨s, t, d, hs, hpos, ht, hd, rfl⟩
    obtain ⟨e', is', hmem', hi⟩ :=
      h.grouped.complete i s (Array.getElem?_eq_some_iff.1 hs).1 hs hpos
    obtain ⟨-, s', t', hs', -, hf⟩ := h.grouped.filed e' is' hmem' i hi
    obtain rfl : s = s' := Option.some.inj (hs.symm.trans hs')
    have ht' := hf.normalized_eq (hsnaps.measured s (Array.mem_of_getElem? hs))
    obtain rfl : t = t' := Except.ok.inj (ht.symm.trans ht')
    obtain ⟨d', hd', rfl⟩ := hf.exists_closest
    obtain rfl : d = d' := Option.some.inj (hd.symm.trans hd')
    -- A road has one group.
    have heq := List.inj_on_of_nodup_map h.grouped.keys hmem hmem' rfl
    rwa [(Prod.mk.inj heq).2]

/-- What a snap of a group is when all snaps have been prepared. -/
theorem BuildSteps.exists_prepared (hmem : (e, is) ∈ groups) {i : Nat} (hi : i ∈ is) :
    ∃ s t, snaps[i]? = some s ∧ s.normalized g = .ok t ∧ prepared.snaps[i]? = some t ∧
      Filed g e s t := by
  obtain ⟨-, s, t, hs, ht, hf⟩ := h.grouped.filed e is hmem i hi
  exact ⟨s, t, hs, hf.normalized_eq (hsnaps.measured s (Array.mem_of_getElem? hs)), ht, hf⟩

end

/-! ## §3. One road. -/

omit [Scalar K] in
/-- The snaps that are read one after the other. -/
theorem filterMap_of_read {xs : Array (Snap K)} {indices : List Nat}
    (h : List.Forall₂ (fun i s => xs[i]? = some s) indices ss) :
    indices.filterMap (xs[·]?) = ss := by
  induction h with
  | nil => rfl
  | cons hi _ ih => rw [List.filterMap_cons_some hi, ih]

section

variable (h : BuildSteps g snaps final o groups prepared spliced cs) (hmem : (e, is) ∈ groups)
  (hr : Resolved g prepared.snaps final is g.nodeCount cs n closest shape start last ss)

include h hmem hr

/-- **The road of an account** is a road of the graph, and the one of its group. -/
theorem BuildSteps.direction_of_resolved (hroads : OnRoads g snaps) :
    g.HasDirection closest ∧ closest.edge = e := by
  obtain ⟨first, hfirst, hclosest⟩ := hr.exists_first
  obtain ⟨j, t₀, -, ht₀, hft⟩ := h.filed_of_resolved hmem hr hfirst
  obtain ⟨d, hd, hedge⟩ := hft.exists_closest
  obtain rfl : closest = d := Option.some.inj (hclosest.symm.trans hd)
  exact ⟨hft.prepared.direction (hroads j t₀ ht₀) hclosest, hedge⟩

/-- **The snaps of a road** have its direction, if those on a loop share one. -/
theorem BuildSteps.closest_of_resolved (hroads : OnRoads g snaps)
    (hloops : ∀ (i j : Nat) s t, snaps[i]? = some s → snaps[j]? = some t →
      ∀ d e, s.closest = some d → t.closest = some e → d.edge = e.edge → d.base = d.adj → d = e)
    {s : Snap K} (hs : s ∈ ss) : s.closest = some closest := by
  obtain ⟨first, hfirst, hclosest⟩ := hr.exists_first
  obtain ⟨j, t₀, -, ht₀, hft⟩ := h.filed_of_resolved hmem hr hfirst
  obtain ⟨i, s₀, -, hs₀, hfs⟩ := h.filed_of_resolved hmem hr hs
  obtain ⟨d, hd, hedge⟩ := hfs.exists_closest
  obtain ⟨d', hd', hedge'⟩ := hft.exists_closest
  obtain rfl : closest = d' := Option.some.inj (hclosest.symm.trans hd')
  have hbase := Prepared.base_eq hfs.prepared hft.prepared hd hd'
    (hfs.prepared.direction (hroads i s₀ hs₀) hd) (hft.prepared.direction (hroads j t₀ ht₀) hd')
    (hedge.trans hedge'.symm)
  rw [hd, Prepared.closest_eq hroads hloops hs₀ ht₀ hfs.prepared hft.prepared hd hd'
    (hedge.trans hedge'.symm) hbase.symm]

end

section

variable (h : BuildSteps g snaps final o groups prepared spliced cs) (hsnaps : Sortable g snaps)
  (hmem : (e, is) ∈ groups)
  (hr : Resolved g prepared.snaps final is g.nodeCount cs n closest shape start last ss)

include h hsnaps hmem hr

/-- The snaps of a road lie on it in its direction and have measured points. -/
theorem BuildSteps.snap_of_resolved {s : Snap K} (hs : s ∈ ss) :
    s.closest = some closest ∧ s.Measured := by
  obtain ⟨i, s₀, -, hs₀, hfs⟩ := h.filed_of_resolved hmem hr hs
  have hmeasured := hsnaps.measured s₀ (Array.mem_of_getElem? hs₀)
  exact ⟨h.closest_of_resolved hmem hr hsnaps.hasDirection hsnaps.loops hs,
    measured_of_normalized hmeasured (hfs.normalized_eq hmeasured)⟩

/-- **Sorted snaps precede one another.** -/
theorem BuildSteps.precedes [OrderedScalar K] : ss.Pairwise (Precedes shape) := by
  obtain ⟨keyed, hkeyed⟩ := hr.sorted
  obtain ⟨ordered, hperm, hread, -⟩ := hr.settled
  have hnodup : ordered.Nodup := hperm.nodup_iff.2 (h.grouped.nodup e is hmem)
  have hlen := hread.length_eq
  have hsorted := List.pairwise_iff_getElem.1 (pairwise_notBehind hkeyed)
  refine List.pairwise_iff_getElem.2 fun p q hp hq hpq => ⟨hsorted p q hp hq hpq, fun hback => ?_⟩
  -- Two places in the order are two snaps of the request.
  have hp' : p < ordered.length := hlen ▸ hp
  have hq' : q < ordered.length := hlen ▸ hq
  have hi := hread.get hp' hp
  have hj := hread.get hq' hq
  have hne : ordered[p] ≠ ordered[q] := fun heq =>
    Nat.ne_of_lt hpq ((hnodup.getElem_inj_iff).1 heq)
  obtain ⟨s, s', hs, hturned, hs', hf⟩ := h.exists_prepared hsnaps hmem
    (hperm.mem_iff.1 (List.getElem_mem hp'))
  obtain ⟨t, t', ht, hturned', ht', hf'⟩ := h.exists_prepared hsnaps hmem
    (hperm.mem_iff.1 (List.getElem_mem hq'))
  obtain rfl : ss[p] = s' := Option.some.inj (hi.symm.trans hs')
  obtain rfl : ss[q] = t' := Option.some.inj (hj.symm.trans ht')
  obtain ⟨hpoint, hposition⟩ := Snap.point_normalized hturned
  obtain ⟨hpoint', hposition'⟩ := Snap.point_normalized hturned'
  have hclosest := (h.snap_of_resolved hsnaps hmem hr (List.getElem_mem hp)).1
  have hclosest' := (h.snap_of_resolved hsnaps hmem hr (List.getElem_mem hq)).1
  have htied : Tied g s t := ⟨hf.not_tower_before, hf'.not_tower_before, ss[p], ss[q], closest, shape,
    hturned, hturned', hclosest, hclosest', hr.shape_eq, hsorted p q hp hq hpq, hback⟩
  obtain ⟨hpos, hsame⟩ := hsnaps.ties _ _ s t hne hs ht htied
  have hspot := hsnaps.spots _ _ s t hne hs ht htied
  refine ⟨Snap.bare_eq_iff.2 ⟨?_, ?_, ?_⟩, fun p hp => hspot p (hpoint ▸ hp)⟩
  · exact Nat.le_antisymm (hsorted p q hp hq hpq).wayIndex_le hback.wayIndex_le
  · rw [hposition, hposition', hpos]
  · rw [hpoint, hpoint', hsame]

/-- **A snap of a road** becomes what its end makes of it. -/
theorem BuildSteps.exists_end {i : Nat} (hi : i ∈ is) :
    ∃ x ∈ endsFrom (baseAnchor closest start) n ss, prepared.snaps[i]? = some x.1 ∧
      final[i]? = some (collapsed x.1 x.2) := by
  obtain ⟨ordered, hperm, hread, hsettled⟩ := hr.settled
  rw [settledFrom_eq fun s hs => (h.snap_of_resolved hsnaps hmem hr hs).2,
    List.forall₂_map_right_iff] at hsettled
  rw [← map_fst_endsFrom (baseAnchor closest start) n ss, List.forall₂_map_right_iff] at hread
  obtain ⟨k, hk, rfl⟩ := List.mem_iff_getElem.1 (hperm.mem_iff.2 hi)
  have hlt := hread.length_eq ▸ hk
  exact ⟨_, List.getElem_mem hlt, hread.get hk hlt, hsettled.get hk hlt⟩

end

/-! ## §4. Two requests. -/

/-- A request in another order can be put in one order too. -/
theorem Sortable.permuted (h : Sortable g snaps) (π : Equiv.Perm Nat)
    (hperm : ∀ k : Nat, snaps'[k]? = snaps[π k]?) : Sortable g snaps' := by
  have hmem : ∀ s ∈ snaps', s ∈ snaps := by
    intro s hs
    obtain ⟨k, hk⟩ := Array.mem_iff_getElem?.1 hs
    exact Array.mem_of_getElem? ((hperm k).symm.trans hk)
  refine ⟨⟨fun s hs => h.onRoads s (hmem s hs), fun s hs => h.measured s (hmem s hs), ?_, ?_⟩, ?_⟩
  · intro i j s t hs ht
    exact h.loops (π i) (π j) s t ((hperm i).symm.trans hs) ((hperm j).symm.trans ht)
  · intro i j s t hne hs ht
    exact h.ties (π i) (π j) s t (fun heq => hne (π.injective heq)) ((hperm i).symm.trans hs)
      ((hperm j).symm.trans ht)
  · intro i j s t hne hs ht
    exact h.spots (π i) (π j) s t (fun heq => hne (π.injective heq)) ((hperm i).symm.trans hs)
      ((hperm j).symm.trans ht)

/-- **A request in another order** is built as well. -/
theorem BuildSteps.exists_build (h : BuildSteps g snaps final o groups prepared spliced cs)
    (hsnaps : Sortable g snaps) (π : Equiv.Perm Nat) (hperm : ∀ k : Nat, snaps'[k]? = snaps[π k]?) :
    ∃ o' final', Overlay.build g snaps' = (.ok o', final') := by
  have hsnaps' := hsnaps.permuted π hperm
  refine exists_build_of_allowed (allowed_of_turned hsnaps'.onRoads (fun s hs hpos => ?_)
    fun s hs _ => (hsnaps'.measured s hs).exists_point)
  obtain ⟨k, hk⟩ := Array.mem_iff_getElem?.1 hs
  have hk := (hperm k).symm.trans hk
  obtain ⟨e, is, hmem, hi⟩ :=
    h.grouped.complete (π k) s (Array.getElem?_eq_some_iff.1 hk).1 hk hpos
  obtain ⟨s', t, hs', ht, -⟩ := h.exists_prepared hsnaps hmem hi
  obtain rfl : s = s' := Option.some.inj (hk.symm.trans hs')
  exact ⟨t, ht⟩

section

variable (h : BuildSteps g snaps final o groups prepared spliced cs)
  (h' : BuildSteps g snaps' final' o' groups' prepared' spliced' cs') (hsnaps : Sortable g snaps)
  (π : Equiv.Perm Nat) (hperm : ∀ k : Nat, snaps'[k]? = snaps[π k]?)

include h h' hsnaps hperm

/-- The groups of a road in two requests hold the same snaps. -/
theorem BuildSteps.mem_group_permuted {is' : List Nat} (hmem : (e, is) ∈ groups)
    (hmem' : (e, is') ∈ groups') (k : Nat) : k ∈ is' ↔ π k ∈ is := by
  rw [h.mem_group_iff hsnaps hmem, h'.mem_group_iff (hsnaps.permuted π hperm) hmem', hperm k]

theorem BuildSteps.prepared_permuted {is' : List Nat} (hmem : (e, is) ∈ groups)
    (hmem' : (e, is') ∈ groups') {k : Nat} (hk : k ∈ is') :
    prepared'.snaps[k]? = prepared.snaps[π k]? := by
  have hi := (h.mem_group_permuted h' hsnaps π hperm hmem hmem' k).1 hk
  obtain ⟨s, t, hs, ht, hread, -⟩ := h.exists_prepared hsnaps hmem hi
  obtain ⟨s', t', hs', ht', hread', -⟩ := h'.exists_prepared (hsnaps.permuted π hperm) hmem' hk
  obtain rfl : s' = s := Option.some.inj (hs'.symm.trans ((hperm k).trans hs))
  rw [hread, hread', Except.ok.inj (ht.symm.trans ht')]

/-- A road on which one request has snaps has the others' as well. -/
theorem BuildSteps.exists_group (hmem : (e, is) ∈ groups) (hne : is ≠ []) :
    ∃ is', (e, is') ∈ groups' ∧ is' ≠ [] := by
  obtain ⟨i, hi⟩ := List.exists_mem_of_ne_nil is hne
  obtain ⟨s, t, d, hs, hpos, ht, hd, hedge⟩ := (h.mem_group_iff hsnaps hmem).1 hi
  have hs' : snaps'[π.symm i]? = some s := by rw [hperm, π.apply_symm_apply, hs]
  obtain ⟨e', is', hmem', hi'⟩ :=
    h'.grouped.complete _ s (Array.getElem?_eq_some_iff.1 hs').1 hs' hpos
  obtain ⟨s₂, t₂, hs₂, ht₂, -, hf⟩ := h'.exists_prepared (hsnaps.permuted π hperm) hmem' hi'
  obtain rfl : s = s₂ := Option.some.inj (hs'.symm.trans hs₂)
  obtain rfl : t = t₂ := Except.ok.inj (ht.symm.trans ht₂)
  obtain ⟨d', hd', hedge'⟩ := hf.exists_closest
  obtain rfl : d = d' := Option.some.inj (hd.symm.trans hd')
  exact ⟨is', hedge.symm.trans hedge' ▸ hmem', List.ne_nil_of_mem hi'⟩

/-- **The account of a road in another request**: the same direction and shape, and snaps at the same
places in the same order. -/
theorem BuildSteps.exists_counterpart [OrderedScalar K] (hmem : (e, is) ∈ groups) (hne : is ≠ [])
    (hr : Resolved g prepared.snaps final is g.nodeCount cs n closest shape start last ss) :
    ∃ is' n' ss', (e, is') ∈ groups' ∧
      Resolved g prepared'.snaps final' is' g.nodeCount cs' n' closest shape start last ss' ∧
      ss'.map Snap.bare = ss.map Snap.bare := by
  have hsnaps' := hsnaps.permuted π hperm
  obtain ⟨is', hmem', hne'⟩ := h.exists_group h' hsnaps π hperm hmem hne
  obtain ⟨n', closest', shape', start', last', ss', hr'⟩ := h'.exists_resolved hmem' hne'
  obtain ⟨ordered, hordered, hread, -⟩ := hr.settled
  obtain ⟨ordered', hordered', hread', -⟩ := hr'.settled
  -- Both roads have the same snaps.
  have hindices : (ordered'.map π).Perm ordered := by
    refine (List.perm_ext_iff_of_nodup ?_ (hordered.nodup_iff.2 (h.grouped.nodup e is hmem))).2
      fun i => ?_
    · exact (hordered'.nodup_iff.2 (h'.grouped.nodup e is' hmem')).map π.injective
    · have hiff := h.mem_group_permuted h' hsnaps π hperm hmem hmem'
      rw [hordered.mem_iff, List.mem_map]
      constructor
      · rintro ⟨k, hk, rfl⟩
        exact (hiff k).1 (hordered'.mem_iff.1 hk)
      · intro hi
        exact ⟨π.symm i, hordered'.mem_iff.2 ((hiff _).2 ((π.apply_symm_apply i).symm ▸ hi)),
          π.apply_symm_apply i⟩
  have hss : ss'.Perm ss := by
    rw [← filterMap_of_read hread, ← filterMap_of_read hread']
    refine List.Perm.trans (.of_eq ?_) (hindices.filterMap (prepared.snaps[·]?))
    rw [List.filterMap_map]
    exact List.filterMap_congr fun k hk =>
      h.prepared_permuted h' hsnaps π hperm hmem hmem' (hordered'.mem_iff.1 hk)
  -- So they have the same direction.
  obtain ⟨first, hfirst, hclosest⟩ := hr'.exists_first
  obtain rfl : closest = closest' := Option.some.inj
    ((h.snap_of_resolved hsnaps hmem hr (hss.mem_iff.1 hfirst)).1.symm.trans hclosest)
  obtain rfl : shape = shape' := Except.ok.inj (hr.shape_eq.symm.trans hr'.shape_eq)
  obtain rfl : start = start' := Option.some.inj (hr.start_eq.symm.trans hr'.start_eq)
  obtain rfl : last = last' := Option.some.inj (hr.last_eq.symm.trans hr'.last_eq)
  exact ⟨is', n', ss', hmem', hr', map_bare_eq_of_perm (h.precedes hsnaps hmem hr)
    ((h'.precedes hsnaps' hmem' hr').imp fun hp => hp.1) hss⟩

end

end RoadSplice.Splicing

/-
  RoadSplice.Proofs.Overlay.Again — the snaps of an overlay, cut in once more.

  Building an overlay turns its snaps to the directions of their roads and moves those that come to
  one spot onto one place.  Built from these snaps once more, every road gets the same chain, and
  every snap stays where it is.  Only the numbers of the virtual nodes may differ, since the first
  snap of a road may be at a tower now.
-/
import RoadSplice.Proofs.Overlay.Order
import RoadSplice.Proofs.Overlay.Settled
import RoadSplice.Proofs.Overlay.Sides

namespace RoadSplice

variable {K : Type} [Scalar K] {g : RoadGraph K}

/-- A road that a snap has been turned to has its own direction. -/
theorem Snap.runsBackwards_of_normalized [OrderedScalar K] {s t : Snap K} {d : DirectedEdge}
    (h : s.normalized g = .ok t) (hd : t.closest = some d) : Snap.runsBackwards g d = .ok false := by
  rcases Splicing.normalized_cases h with ⟨rfl, hself⟩ | ⟨d', shape, index, -, hback, -, -, rfl⟩
  · exact hself d hd
  · obtain rfl : d'.reversed = d := Option.some.inj hd
    exact Snap.runsBackwards_reversed hback

namespace Splicing

/-! ## §1. Snaps that can be cut in twice. -/

/-- **Two prepared snaps are level**: they lie in one direction of a road, and neither is behind the
other one; that is, they have one way index and are equally far from the point there. -/
def Level (g : RoadGraph K) (s t : Snap K) : Prop :=
  ∃ d shape, s.closest = some d ∧ t.closest = some d ∧ d.shape g = .ok shape ∧
    NotBehind shape s t ∧ NotBehind shape t s

/-- **Snaps that can be cut in twice**: they lie on roads of the graph, those on a loop in one
direction of it, and where two of them are level they are at one spot.  That holds for a snap and
itself where its point has finite coordinates. -/
structure Repeatable (g : RoadGraph K) (snaps : Array (Snap K)) : Prop where
  onRoads : ∀ s ∈ snaps, ∃ d, s.closest = some d ∧ g.HasDirection d
  loops : ∀ (i j : Nat) s t, snaps[i]? = some s → snaps[j]? = some t →
    ∀ d e, s.closest = some d → t.closest = some e → d.edge = e.edge → d.base = d.adj → d = e
  spots : ∀ s ∈ snaps, ∀ t ∈ snaps, s.position ≠ .tower → t.position ≠ .tower →
    ∀ s' t', Prepared g s s' → Prepared g t t' → Level g s' t' →
      ∀ p q, s'.point = some p → t'.point = some q → p.coincides q = true

variable {snaps final final' : Array (Snap K)} {o o' : Overlay K} {groups groups' : Groups}
  {prepared spliced prepared' spliced' : Splicing K} {cs cs' : List (Chain K)} {e : EdgeId}
  {is is' : List Nat} {n : NodeId} {closest : DirectedEdge} {shape : Polyline K}
  {start last : Point K} {ss : List (Snap K)}

/-- **One place**: a snap's road, way index, position and point. -/
structure SamePlace (t t' : Snap K) : Prop where
  closest : t'.closest = t.closest
  wayIndex : t'.wayIndex = t.wayIndex
  position : t'.position = t.position
  point : t'.point = t.point

/-- **One node in two overlays**: that of a snap at a tower, and else the virtual nodes at one
position of two chains that are alike. -/
def SameNode (firstNode : NodeId) (cs cs' : List (Chain K)) (t t' : Snap K) : Prop :=
  (t.position = .tower ∧ t'.node = t.node) ∨
    ∃ c ∈ cs, ∃ c' ∈ cs', c'.body = c.body ∧ ∃ j < c.points.length,
      t.node = some (c.node firstNode (j + 1)) ∧ t'.node = some (c'.node firstNode (j + 1))

theorem Repeatable.hasDirection (h : Repeatable g snaps) : OnRoads g snaps := by
  intro i s hs d hd
  obtain ⟨d', hd', hroad⟩ := h.onRoads s (Array.mem_of_getElem? hs)
  exact Option.some.inj (hd.symm.trans hd') ▸ hroad

/-! ## §2. One road. -/

section

variable (h : BuildSteps g snaps final o groups prepared spliced cs) (hsnaps : Repeatable g snaps)
  (hmem : (e, is) ∈ groups)
  (hr : Resolved g prepared.snaps final is g.nodeCount cs n closest shape start last ss)

include h hsnaps hmem hr

/-- The snaps of a road that are level are at one spot. -/
theorem BuildSteps.coincides_of_level {s t : Snap K} (hs : s ∈ ss) (ht : t ∈ ss)
    (hst : NotBehind shape s t) (hts : NotBehind shape t s) {p q : Point K} (hp : s.point = some p)
    (hq : t.point = some q) : p.coincides q = true := by
  obtain ⟨i, s₀, -, hs₀, hfs⟩ := h.filed_of_resolved hmem hr hs
  obtain ⟨j, t₀, -, ht₀, hft⟩ := h.filed_of_resolved hmem hr ht
  have hclosest := h.closest_of_resolved hmem hr hsnaps.hasDirection hsnaps.loops hs
  have hclosest' := h.closest_of_resolved hmem hr hsnaps.hasDirection hsnaps.loops ht
  exact hsnaps.spots s₀ (Array.mem_of_getElem? hs₀) t₀ (Array.mem_of_getElem? ht₀)
    hfs.not_tower_before hft.not_tower_before s t hfs.prepared hft.prepared
    ⟨closest, shape, hclosest, hclosest', hr.shape_eq, hst, hts⟩ p q hp hq

/-- **The snaps of a road** are in line along it. -/
theorem BuildSteps.lined [OrderedScalar K] : Lined shape ss := by
  obtain ⟨keyed, hkeyed⟩ := hr.sorted
  refine ⟨fun s hs => ?_, fun s hs => ?_, ?_⟩
  · obtain ⟨i, s₀, -, -, hf⟩ := h.filed_of_resolved hmem hr hs
    exact hf.not_tower
  · obtain ⟨i, s₀, -, -, hf⟩ := h.filed_of_resolved hmem hr hs
    obtain ⟨p, hp⟩ := hf.exists_point
    -- A snap is level with itself.
    obtain ⟨k, -, hk⟩ := exists_left hkeyed hs
    have hself : atOrBefore k.1 k.1 = true := by simpa using atOrBefore_total k.1 k.1
    have hlevel : NotBehind shape s s := ⟨k.1, k.1, hk, hk, hself⟩
    exact ⟨p, hp, h.coincides_of_level hsnaps hmem hr hs hs hlevel hlevel hp hp⟩
  · refine List.Pairwise.imp_of_mem ?_ (pairwise_notBehind hkeyed)
    intro s t hs ht hst
    refine ⟨hst, ?_⟩
    intro hts p q hp hq
    exact h.coincides_of_level hsnaps hmem hr hs ht hst hts hp hq

/-- What is left on the road is in order. -/
theorem BuildSteps.precedes_remaining [OrderedScalar K] :
    (remaining (baseAnchor closest start) n ss).Pairwise (Precedes shape) :=
  ((h.lined hsnaps hmem hr).precedes_remaining fun htower => absurd rfl htower).1

end

/-- **Where a snap of a road ends up.** -/
theorem BuildSteps.exists_ended (h : BuildSteps g snaps final o groups prepared spliced cs)
    (hmem : (e, is) ∈ groups)
    (hr : Resolved g prepared.snaps final is g.nodeCount cs n closest shape start last ss) {i : Nat}
    (hi : i ∈ is) :
    ∃ x ∈ endsFrom (baseAnchor closest start) n ss, ∃ t ∈ settledFrom (baseAnchor closest start) n ss,
      prepared.snaps[i]? = some x.1 ∧ final[i]? = some t ∧ EndedAt t x := by
  have hpoints : ∀ s ∈ ss, ∃ p, s.point = some p := by
    intro s hs
    obtain ⟨j, s₀, -, -, hf⟩ := h.filed_of_resolved hmem hr hs
    exact hf.exists_point
  obtain ⟨ordered, hperm, hread, hsettled⟩ := hr.settled
  have hended := ended_settledFrom (a := baseAnchor closest start) (n := n) hpoints
  rw [← map_fst_endsFrom (baseAnchor closest start) n ss, List.forall₂_map_right_iff] at hread
  obtain ⟨k, hk, rfl⟩ := List.mem_iff_getElem.1 (hperm.mem_iff.2 hi)
  have hlt := hread.length_eq ▸ hk
  have hlt' := hsettled.length_eq ▸ hk
  exact ⟨_, List.getElem_mem hlt, _, List.getElem_mem hlt', hread.get hk hlt, hsettled.get hk hlt',
    hended.get hlt' hlt⟩

/-! ## §3. The snaps of the second request. -/

section

variable [OrderedScalar K] (h : BuildSteps g snaps final o groups prepared spliced cs)
  (hsnaps : Repeatable g snaps)

include h hsnaps

/-- **What a snap has become**: at a tower from the start it is the same; any other lies in its
road's own direction at the place where it ended. -/
theorem BuildSteps.final_cases {k : Nat} {t : Snap K} (ht : final[k]? = some t) :
    (t.position = .tower ∧ snaps[k]? = some t) ∨
      ∃ e is n closest shape start last ss, (e, is) ∈ groups ∧ k ∈ is ∧
        Resolved g prepared.snaps final is g.nodeCount cs n closest shape start last ss ∧
        t ∈ settledFrom (baseAnchor closest start) n ss ∧ t.closest = some closest ∧
        (∃ p, t.point = some p) ∧ t.normalized g = .ok t := by
  have hlt : k < snaps.size := h.size_eq ▸ (Array.getElem?_eq_some_iff.1 ht).1
  have hs := Array.getElem?_eq_getElem hlt
  by_cases hpos : snaps[k].position = .tower
  · obtain rfl := Option.some.inj (ht.symm.trans (h.tower hs hpos))
    exact .inl ⟨hpos, hs⟩
  · obtain ⟨e, is, n, closest, shape, start, last, ss, hmem, hi, hr, -⟩ := h.exists_settled hs hpos
    obtain ⟨x, hx, t', ht', hread, hfinal, hended⟩ := h.exists_ended hmem hr hi
    obtain rfl : t = t' := Option.some.inj (ht.symm.trans hfinal)
    have hx := mem_of_mem_endsFrom hx
    have hclosest : t.closest = some closest := hended.closest.trans
      (h.closest_of_resolved hmem hr hsnaps.hasDirection hsnaps.loops hx)
    refine .inr ⟨e, is, n, closest, shape, start, last, ss, hmem, hi, hr, ht', hclosest,
      ⟨_, hended.point⟩, ?_⟩
    -- The snap was turned to this direction before.
    obtain ⟨i, s₀, -, -, hf⟩ := h.filed_of_resolved hmem hr hx
    obtain ⟨turned, hturned, hcases⟩ := hf.prepared
    have hto := (Prepared.exists_closest hturned hcases (hended.closest.symm.trans hclosest)).1
    exact normalized_self (Snap.runsBackwards_of_normalized hturned hto) hclosest

theorem BuildSteps.onRoads_final : ∀ t ∈ final, ∃ d, t.closest = some d ∧ g.HasDirection d := by
  intro t ht
  obtain ⟨k, hk⟩ := Array.mem_iff_getElem?.1 ht
  rcases h.final_cases hsnaps hk with
    ⟨-, hs⟩ | ⟨e, is, n, closest, shape, start, last, ss, hmem, -, hr, -, hclosest, -⟩
  · exact hsnaps.onRoads t (Array.mem_of_getElem? hs)
  · exact ⟨closest, hclosest, (h.direction_of_resolved hmem hr hsnaps.hasDirection).1⟩

theorem BuildSteps.hasDirection_final : OnRoads g final := by
  intro i t ht d hd
  obtain ⟨d', hd', hroad⟩ := h.onRoads_final hsnaps t (Array.mem_of_getElem? ht)
  exact Option.some.inj (hd.symm.trans hd') ▸ hroad

/-- **The second request** is built. -/
theorem BuildSteps.exists_rebuild : ∃ o' final', Overlay.build g final = (.ok o', final') := by
  refine exists_build_of_allowed (allowed_of_turned (h.onRoads_final hsnaps) ?_ ?_)
  · intro t ht hpos
    obtain ⟨k, hk⟩ := Array.mem_iff_getElem?.1 ht
    rcases h.final_cases hsnaps hk with
      ⟨htower, -⟩ | ⟨-, -, -, -, -, -, -, -, -, -, -, -, -, -, hturned⟩
    · exact absurd htower hpos
    · exact ⟨t, hturned⟩
  · intro t ht hpos
    obtain ⟨k, hk⟩ := Array.mem_iff_getElem?.1 ht
    rcases h.final_cases hsnaps hk with
      ⟨htower, -⟩ | ⟨-, -, -, -, -, -, -, -, -, -, -, -, -, hpoint, -⟩
    · exact absurd htower hpos
    · exact hpoint

end

/-- Choosing among what is read, or choosing what to read. -/
theorem filter_filterMap_any {α β : Type} (f : α → Option β) (p : β → Bool) (l : List α) :
    (l.filterMap f).filter p = (l.filter fun a => (f a).any p).filterMap f := by
  rw [List.filter_filterMap, List.filterMap_filter]
  refine List.filterMap_congr fun a _ => ?_
  cases f a with
  | none => rfl
  | some b => cases hb : p b <;> simp [Option.filter, hb]

section

variable [OrderedScalar K] (h : BuildSteps g snaps final o groups prepared spliced cs)
  (h' : BuildSteps g final final' o' groups' prepared' spliced' cs') (hsnaps : Repeatable g snaps)

include h h' hsnaps

/-- **A snap that is filed once more** stays as it is, under the road under which it was filed. -/
theorem BuildSteps.refiled (hmem' : (e, is') ∈ groups') {k : Nat} (hk : k ∈ is') :
    ∃ t, final[k]? = some t ∧ prepared'.snaps[k]? = some t ∧ t.position ≠ .tower ∧
      ∃ is n closest shape start last ss, (e, is) ∈ groups ∧ k ∈ is ∧
        Resolved g prepared.snaps final is g.nodeCount cs n closest shape start last ss := by
  obtain ⟨-, t, t', ht, ht', hf⟩ := h'.grouped.filed e is' hmem' k hk
  rcases h.final_cases hsnaps ht with ⟨htower, -⟩ |
    ⟨e₀, is, n, closest, shape, start, last, ss, hmem, hi, hr, -, hclosest, ⟨p, hp⟩, hturned⟩
  · exact absurd htower hf.not_tower_before
  · have hkept : Prepared g t t := ⟨t, hturned, .inr ⟨by rw [hp]; rfl, rfl⟩⟩
    obtain rfl : t = t' := hkept.unique hf.prepared
    obtain ⟨d, hd, hedge⟩ := hf.exists_closest
    obtain rfl : closest = d := Option.some.inj (hclosest.symm.trans hd)
    have hroad := (h.direction_of_resolved hmem hr hsnaps.hasDirection).2
    obtain rfl : e₀ = e := hroad.symm.trans hedge
    exact ⟨t, ht, ht', hf.not_tower, is, n, closest, shape, start, last, ss, hmem, hi, hr⟩

/-- **The second group of a road** holds the snaps of the first one that are not at a tower. -/
theorem BuildSteps.mem_refiled_iff (hmem : (e, is) ∈ groups) (hmem' : (e, is') ∈ groups') {k : Nat} :
    k ∈ is' ↔ k ∈ is ∧ ∃ t, final[k]? = some t ∧ t.position ≠ .tower := by
  constructor
  · intro hk
    obtain ⟨t, ht, -, hpos, is₀, -, -, -, -, -, -, hmem₀, hi, -⟩ := h.refiled h' hsnaps hmem' hk
    -- A road has one group.
    have heq := List.inj_on_of_nodup_map h.grouped.keys hmem₀ hmem rfl
    exact ⟨(Prod.mk.inj heq).2 ▸ hi, t, ht, hpos⟩
  · rintro ⟨hi, t, ht, hpos⟩
    obtain ⟨e₁, is₁, hmem₁, hk⟩ :=
      h'.grouped.complete k t (Array.getElem?_eq_some_iff.1 ht).1 ht hpos
    obtain ⟨-, -, -, -, is₀, -, -, -, -, -, -, hmem₀, hi₀, -⟩ := h.refiled h' hsnaps hmem₁ hk
    obtain rfl : e₁ = e := h.grouped.ready.edge_eq hmem₀ hmem hi₀ hi
    have heq := List.inj_on_of_nodup_map h'.grouped.keys hmem₁ hmem' rfl
    exact (Prod.mk.inj heq).2 ▸ hk

/-- **The second time** a road has the snaps that are left of the first time. -/
theorem BuildSteps.perm_remaining (hmem : (e, is) ∈ groups) (hmem' : (e, is') ∈ groups')
    (hr : Resolved g prepared.snaps final is g.nodeCount cs n closest shape start last ss)
    {n' : NodeId} {closest' : DirectedEdge} {shape' : Polyline K} {start' last' : Point K}
    {ss' : List (Snap K)} (hr' : Resolved g prepared'.snaps final' is' g.nodeCount cs' n' closest'
      shape' start' last' ss') : ss'.Perm (remaining (baseAnchor closest start) n ss) := by
  obtain ⟨ordered, hordered, -, hsettled⟩ := hr.settled
  obtain ⟨ordered', hordered', hread', -⟩ := hr'.settled
  have hindices : ordered'.Perm
      (ordered.filter fun k => final[k]?.any fun t => t.position ≠ .tower) := by
    refine (List.perm_ext_iff_of_nodup ?_ ?_).2 fun k => ?_
    · exact hordered'.nodup_iff.2 (h'.grouped.nodup e is' hmem')
    · exact (hordered.nodup_iff.2 (h.grouped.nodup e is hmem)).filter _
    · rw [hordered'.mem_iff, h.mem_refiled_iff h' hsnaps hmem hmem', List.mem_filter,
        hordered.mem_iff, Option.any_eq_true]
      simp
  unfold remaining
  rw [← filterMap_of_read hread', ← filterMap_of_read hsettled, filter_filterMap_any]
  refine List.Perm.trans (.of_eq ?_) (hindices.filterMap (final[·]?))
  -- The snaps are read as the first time has left them.
  refine List.filterMap_congr fun k hk => ?_
  obtain ⟨t, ht, ht', -⟩ := h.refiled h' hsnaps hmem' (hordered'.mem_iff.1 hk)
  rw [ht, ht']

/-- **The second account of a road** on which a snap is left: the same direction and shape, and at
the same places the snaps that are left. -/
theorem BuildSteps.exists_recount (hmem : (e, is) ∈ groups)
    (hr : Resolved g prepared.snaps final is g.nodeCount cs n closest shape start last ss) {k : Nat}
    (hi : k ∈ is) {t : Snap K} (ht : final[k]? = some t) (hpos : t.position ≠ .tower) :
    ∃ is' n' ss', (e, is') ∈ groups' ∧ k ∈ is' ∧
      Resolved g prepared'.snaps final' is' g.nodeCount cs' n' closest shape start last ss' ∧
      ss'.map Snap.bare = (remaining (baseAnchor closest start) n ss).map Snap.bare := by
  obtain ⟨e₁, is', hmem', hk⟩ :=
    h'.grouped.complete k t (Array.getElem?_eq_some_iff.1 ht).1 ht hpos
  obtain ⟨-, -, -, -, is₀, -, -, -, -, -, -, hmem₀, hi₀, -⟩ := h.refiled h' hsnaps hmem' hk
  obtain rfl : e₁ = e := h.grouped.ready.edge_eq hmem₀ hmem hi₀ hi
  obtain ⟨n', closest', shape', start', last', ss', hr'⟩ :=
    h'.exists_resolved hmem' (List.ne_nil_of_mem hk)
  have hss := h.perm_remaining h' hsnaps hmem hmem' hr hr'
  -- The snaps that are left have the direction of the road.
  obtain ⟨first, hfirst, hroad⟩ := hr'.exists_first
  obtain ⟨s₀, hs₀, hkept⟩ := closest_of_mem_settledFrom
    (List.mem_of_mem_filter (hss.mem_iff.1 hfirst))
  have hclosest := h.closest_of_resolved hmem hr hsnaps.hasDirection hsnaps.loops hs₀
  obtain rfl : closest = closest' := Option.some.inj (hclosest.symm.trans (hkept.symm.trans hroad))
  obtain rfl : shape = shape' := Except.ok.inj (hr.shape_eq.symm.trans hr'.shape_eq)
  obtain rfl : start = start' := Option.some.inj (hr.start_eq.symm.trans hr'.start_eq)
  obtain rfl : last = last' := Option.some.inj (hr.last_eq.symm.trans hr'.last_eq)
  refine ⟨is', n', ss', hmem', hk, hr', ?_⟩
  obtain ⟨keyed, hkeyed⟩ := hr'.sorted
  exact map_bare_eq_of_perm (h.precedes_remaining hsnaps hmem hr) (pairwise_notBehind hkeyed) hss

/-! ## §4. The same overlay. -/

omit h' in
/-- **The chain of a road** on which a snap is left, in both overlays. -/
theorem BuildSteps.exists_chain_again (hg : g.WellFormed) (hmem : (e, is) ∈ groups)
    (hr : Resolved g prepared.snaps final is g.nodeCount cs n closest shape start last ss)
    (hstops : stopsFrom shape (baseAnchor closest start) n ss ≠ []) {n' : NodeId}
    {ss' : List (Snap K)}
    (hr' : Resolved g prepared'.snaps final' is' g.nodeCount cs' n' closest shape start last ss')
    (hbare : ss'.map Snap.bare = (remaining (baseAnchor closest start) n ss).map Snap.bare) :
    ∃ c ∈ cs, ∃ c' ∈ cs', c'.body = c.body ∧ c.road = closest ∧ n = g.nodeCount + c.start ∧
      n' = g.nodeCount + c'.start ∧ c.points.length =
        (stopsFrom shape (baseAnchor closest start) n
          (remaining (baseAnchor closest start) n ss)).length := by
  have hlined := h.lined hsnaps hmem hr
  have hbase := hg.touches_lt (h.direction_of_resolved hmem hr hsnaps.hasDirection).1.touches.1
  obtain ⟨hstops', hlast', -⟩ := settled_again shape (n := n) hlined.not_tower
    hlined.spots (a := baseAnchor closest start) fun htower => absurd rfl htower
  obtain ⟨-, halike, hlast⟩ := renumbered_alike shape hbare (shifted_add n n')
    (baseAnchor closest start)
  rw [baseAnchor_renumbered (Nat.lt_of_lt_of_le hbase hr.node_le)] at halike hlast
  have hlength := congrArg List.length hstops'
  rw [List.length_map, List.length_map] at hlength
  rw [hlength]
  exact hr.chain_of_stops hr' (halike.trans hstops') (hlast.trans (by rw [hlast'])) hstops

omit h h' hsnaps [OrderedScalar K] in
/-- A settled snap that is at no tower has ended at a stop of its road. -/
theorem exists_stop {x : Snap K × Anchor K} {t : Snap K} (shape : Polyline K)
    (hx : x ∈ endsFrom (baseAnchor closest start) n ss) (hended : EndedAt t x)
    (hpos : t.position ≠ .tower) :
    ∃ j < (stopsFrom shape (baseAnchor closest start) n ss).length, x.2.node = n + j := by
  rcases end_cases shape hx with heq | hstop
  · have hposition : t.position = x.2.place.2 := congrArg Snap.position hended.bare
    rw [heq] at hposition
    exact absurd hposition hpos
  · exact hstop

/-- **Every snap** stays at its place, at the same virtual node of the same chain. -/
theorem BuildSteps.exists_same_again (hg : g.WellFormed) {k : Nat} {t : Snap K}
    (ht : final[k]? = some t) :
    ∃ t', final'[k]? = some t' ∧ SamePlace t t' ∧ SameNode g.nodeCount cs cs' t t' := by
  by_cases hpos : t.position = .tower
  · exact ⟨t, h'.tower ht hpos, ⟨rfl, rfl, rfl, rfl⟩, .inl ⟨hpos, rfl⟩⟩
  rcases h.final_cases hsnaps ht with ⟨htower, -⟩ |
    ⟨e, is, n, closest, shape, start, last, ss, hmem, hi, hr, hsettled, -⟩
  · exact absurd htower hpos
  have hreal := Nat.lt_of_lt_of_le
    (hg.touches_lt (h.direction_of_resolved hmem hr hsnaps.hasDirection).1.touches.1) hr.node_le
  obtain ⟨is', n', ss', hmem', hk, hr', hbare⟩ := h.exists_recount h' hsnaps hmem hr hi ht hpos
  -- Both times the snap ends at an anchor of its road.
  obtain ⟨x, hx, t₀, -, -, hfinal, hended⟩ := h.exists_ended hmem hr hi
  obtain rfl : t = t₀ := Option.some.inj (ht.symm.trans hfinal)
  obtain ⟨x', hx', t', -, hread', hfinal', hended'⟩ := h'.exists_ended hmem' hr' hk
  obtain ⟨t₁, ht₁, hread₁, -⟩ := h.refiled h' hsnaps hmem' hk
  obtain rfl : t = t₁ := Option.some.inj (ht.symm.trans ht₁)
  obtain hsnap : t = x'.1 := Option.some.inj (hread₁.symm.trans hread')
  have hleft : t ∈ remaining (baseAnchor closest start) n ss :=
    List.mem_filter.2 ⟨hsettled, by simpa using hpos⟩
  rw [← baseAnchor_renumbered hreal start n'] at hx'
  obtain ⟨z, hz, hzended, hanchor⟩ := (h.lined hsnaps hmem hr).end_again rfl (shifted_add n n') hbare
    hx' hleft (by rw [hsnap])
  have hsame : t'.bare = t.bare := by
    rw [hended'.bare, hanchor, bare_renumbered, hzended.bare]
  obtain ⟨hindex, hposition, hpoint⟩ := Snap.bare_eq_iff.1 hsame
  refine ⟨t', hfinal', ⟨hended'.closest.trans (by rw [hsnap]), hindex, hposition, hpoint⟩, .inr ?_⟩
  -- The anchor is a virtual node of the chain of the road.
  obtain ⟨i, hi', -⟩ := exists_stop shape hx hended hpos
  obtain ⟨j, hj, hnode⟩ := exists_stop shape hz hzended hpos
  obtain ⟨c, hc, c', hc', hbody, -, hn, hn', hlength⟩ :=
    h.exists_chain_again hsnaps hg hmem hr (List.ne_nil_of_length_pos (Nat.zero_lt_of_lt hi')) hr'
      hbare
  have hlength' : c'.points.length = c.points.length := by
    rw [show c'.points = c.points from congrArg (·.2.1) hbody]
  refine ⟨c, hc, c', hc', hbody, j, hlength ▸ hj, ?_, ?_⟩
  · rw [c.node_virtual _ (hlength ▸ hj), ← Nat.add_assoc, ← hn, ← hnode]
    exact hzended.node
  · rw [c'.node_virtual _ (hlength' ▸ hlength ▸ hj), ← Nat.add_assoc, ← hn', ← shifted_add n n',
      ← hnode, hended'.node, hanchor]
    rfl

/-- **Every chain** is laid once more. -/
theorem BuildSteps.exists_chain_kept (hg : g.WellFormed) {c : Chain K} (hc : c ∈ cs) :
    ∃ c' ∈ cs', c'.body = c.body := by
  obtain ⟨e, is, n, closest, shape, start, last, ss, hmem, -, hr, hstops, hedge⟩ :=
    h.exists_resolved_of_chain hsnaps.hasDirection hg hc
  have hlined := h.lined hsnaps hmem hr
  obtain ⟨t, ht⟩ := List.exists_mem_of_ne_nil _ (remaining_ne_nil hlined.not_tower hlined.spots
    (a := baseAnchor closest start) (fun htower => absurd rfl htower) hstops)
  obtain ⟨hsettled, hpos⟩ := List.mem_filter.1 ht
  obtain ⟨ordered, hperm, -, hread⟩ := hr.settled
  obtain ⟨k, hk, hfinal⟩ := exists_left hread hsettled
  obtain ⟨is', n', ss', -, -, hr', hbare⟩ := h.exists_recount h' hsnaps hmem hr
    (hperm.mem_iff.1 hk) hfinal (by simpa using hpos)
  obtain ⟨c₁, hc₁, c', hc', hbody, hroad, -⟩ :=
    h.exists_chain_again hsnaps hg hmem hr hstops hr' hbare
  -- No other chain lies on the road.
  obtain rfl : c₁ = c := List.inj_on_of_nodup_map h.distinct hc₁ hc (by rw [hroad, hedge])
  exact ⟨c', hc', hbody⟩

/-- **No other chain** is laid. -/
theorem BuildSteps.exists_chain_before (hg : g.WellFormed) {c' : Chain K} (hc' : c' ∈ cs') :
    ∃ c ∈ cs, c'.body = c.body := by
  have hroads' := h.hasDirection_final hsnaps
  obtain ⟨e, is', _, _, _, _, _, _, hmem', hne, hr₀, -, hedge⟩ :=
    h'.exists_resolved_of_chain hroads' hg hc'
  have hroad₀ := (h'.direction_of_resolved hmem' hr₀ hroads').2
  -- Take a snap that was filed for the second chain: before, it ended at a stop of the same road.
  obtain ⟨k, hk⟩ := List.exists_mem_of_ne_nil is' hne
  obtain ⟨t, ht, -, hpos, is, n, closest, shape, start, last, ss, hmem, hi, hr⟩ :=
    h.refiled h' hsnaps hmem' hk
  obtain ⟨x, hx, t₀, -, -, hfinal, hended⟩ := h.exists_ended hmem hr hi
  obtain rfl : t = t₀ := Option.some.inj (ht.symm.trans hfinal)
  obtain ⟨j, hj, -⟩ := exists_stop shape hx hended hpos
  obtain ⟨is₁, n', ss', -, -, hr', hbare⟩ := h.exists_recount h' hsnaps hmem hr hi ht hpos
  obtain ⟨c, hc, c₁, hc₁, hbody, hroad, -⟩ := h.exists_chain_again hsnaps hg hmem hr
    (List.ne_nil_of_length_pos (Nat.zero_lt_of_lt hj)) hr' hbare
  have hsame : c₁.road = closest := (congrArg Prod.fst hbody).trans hroad
  -- There is one chain for each road.
  obtain rfl : c₁ = c' := by
    refine List.inj_on_of_nodup_map h'.distinct hc₁ hc' ?_
    rw [hsame, (h.direction_of_resolved hmem hr hsnaps.hasDirection).2, ← hedge, hroad₀]
  exact ⟨c, hc, hbody⟩

end

/-- **An overlay and the one of its snaps**: every road has the same chain in both, and every snap
is at the same place and at the same virtual node, whatever the number of that. -/
def CutAgain (g : RoadGraph K) (o o' : Overlay K) (final final' : Array (Snap K)) : Prop :=
  ∃ cs cs', Overlay.Spliced g o cs ∧ Overlay.Spliced g o' cs' ∧
    (cs'.map Chain.body).Perm (cs.map Chain.body) ∧ final'.size = final.size ∧
    ∀ (k : Nat) t, final[k]? = some t →
      ∃ t', final'[k]? = some t' ∧ SamePlace t t' ∧ SameNode g.nodeCount cs cs' t t'

end Splicing

/-- **Building an overlay from its own snaps changes nothing**: it succeeds, gives every road the
same chain, and leaves every snap at its place. -/
theorem overlay_same_from_own_snaps [OrderedScalar K] (hg : g.Built) {snaps final : Array (Snap K)}
    (hsnaps : Splicing.Repeatable g snaps) {o : Overlay K}
    (hbuild : Overlay.build g snaps = (.ok o, final)) :
    ∃ o' final', Overlay.build g final = (.ok o', final') ∧
      Splicing.CutAgain g o o' final final' := by
  obtain ⟨groups, prepared, spliced, cs, h⟩ := Splicing.exists_buildSteps hbuild
  obtain ⟨o', final', hbuild'⟩ := h.exists_rebuild hsnaps
  obtain ⟨groups', prepared', spliced', cs', h'⟩ := Splicing.exists_buildSteps hbuild'
  refine ⟨o', final', hbuild', cs, cs',
    (Overlay.spliced_of_steps hg.wellFormed hsnaps.hasDirection h).1,
    (Overlay.spliced_of_steps hg.wellFormed (h.hasDirection_final hsnaps) h').1, ?_, h'.size_eq,
    fun k t ht => h.exists_same_again h' hsnaps hg.wellFormed ht⟩
  -- No chain is there twice on either side, so it is enough to compare what is there.
  refine (List.perm_ext_iff_of_nodup (Splicing.nodup_bodies h'.distinct)
    (Splicing.nodup_bodies h.distinct)).2 fun b => ?_
  constructor
  · intro hb
    obtain ⟨c', hc', rfl⟩ := List.mem_map.1 hb
    obtain ⟨c, hc, hbody⟩ := h.exists_chain_before h' hsnaps hg.wellFormed hc'
    exact List.mem_map.2 ⟨c, hc, hbody.symm⟩
  · intro hb
    obtain ⟨c, hc, rfl⟩ := List.mem_map.1 hb
    obtain ⟨c', hc', hbody⟩ := h.exists_chain_kept h' hsnaps hg.wellFormed hc
    exact List.mem_map.2 ⟨c', hc', hbody⟩

/-! ## §5. Finite positions. -/

namespace Splicing

/-- **Snaps at finite positions** can be cut in twice if level ones have one point. -/
theorem repeatable_of_finite {g : RoadGraph Exact} {snaps : Array (Snap Exact)}
    (hroads : ∀ s ∈ snaps, ∃ d, s.closest = some d ∧ g.HasDirection d)
    (hloops : ∀ (i j : Nat) s t, snaps[i]? = some s → snaps[j]? = some t →
      ∀ d e, s.closest = some d → t.closest = some e → d.edge = e.edge → d.base = d.adj → d = e)
    (hfinite : ∀ s ∈ snaps, s.position ≠ .tower → ∀ s', Prepared g s s' →
      ∀ p, s'.point = some p → p.lat.IsReal ∧ p.lon.IsReal)
    (hlevel : ∀ (i j : Nat) s t, i ≠ j → snaps[i]? = some s → snaps[j]? = some t →
      s.position ≠ .tower → t.position ≠ .tower → ∀ s' t', Prepared g s s' → Prepared g t t' →
        Level g s' t' → s'.point = t'.point) : Repeatable g snaps := by
  refine ⟨hroads, hloops, ?_⟩
  intro s hs t ht hpos hpos' s' t' hps hpt hst p q hp hq
  obtain ⟨hlat, hlon⟩ := hfinite s hs hpos s' hps p hp
  obtain ⟨i, hi⟩ := Array.mem_iff_getElem?.1 hs
  obtain ⟨j, hj⟩ := Array.mem_iff_getElem?.1 ht
  -- One snap has one point; two have the same one if they are level.
  have hsame : s'.point = t'.point := by
    by_cases hij : i = j
    · subst hij
      obtain rfl : s = t := Option.some.inj (hi.symm.trans hj)
      rw [hps.unique hpt]
    · exact hlevel i j s t hij hi hj hpos hpos' s' t' hps hpt hst
  obtain rfl : p = q := Option.some.inj (hp.symm.trans (hsame.trans hq))
  exact Exact.coincides_of_finite hlat hlon rfl rfl

/-- Two fixes at one spot of a road, behind one at an inner point of it. -/
noncomputable def levelSnaps : Array (Snap Exact) := #[atInner 0, between 0, between 0]

theorem mem_levelSnaps {s : Snap Exact} (hs : s ∈ levelSnaps) : s = atInner 0 ∨ s = between 0 := by
  unfold levelSnaps at hs
  simpa using hs

/-- They need no preparation. -/
theorem prepared_levelSnaps {s s' : Snap Exact} (hs : s = atInner 0 ∨ s = between 0)
    (h : Prepared (cutRoad 0) s s') : s' = s := by
  have hself : Prepared (cutRoad 0) s s := by
    have hclosest : s.closest = some RoadGraph.onlyRoad := by rcases hs with rfl | rfl <;> rfl
    have hpoint : s.point.isNone = false := by rcases hs with rfl | rfl <;> rfl
    exact ⟨s, normalized_self (runsBackwards_onlyRoad _) hclosest, .inr ⟨hpoint, rfl⟩⟩
  exact h.unique hself

theorem repeatable_levelSnaps : Repeatable (cutRoad 0) levelSnaps := by
  have hclosest : ∀ {s : Snap Exact}, s ∈ levelSnaps → s.closest = some RoadGraph.onlyRoad := by
    intro s hs
    rcases mem_levelSnaps hs with rfl | rfl <;> rfl
  have hshape : RoadGraph.onlyRoad.shape (cutRoad 0) = .ok (levelShape 0) := shape_onlyRoad _ _ _ _ _
  refine repeatable_of_finite ?_ ?_ ?_ ?_
  · intro s hs
    exact ⟨_, hclosest hs, RoadGraph.hasDirection_onlyRoad _ _ _ _ _⟩
  · intro i j s t hs ht d e hd he _ _
    have hd := (hclosest (Array.mem_of_getElem? hs)).symm.trans hd
    exact Option.some.inj (hd.symm.trans ((hclosest (Array.mem_of_getElem? ht)).symm.trans he))
  · intro s hs _ s' hps p hp
    rw [prepared_levelSnaps (mem_levelSnaps hs) hps] at hp
    rcases mem_levelSnaps hs with rfl | rfl
    · exact Option.some.inj hp ▸ ⟨⟨0, rfl⟩, ⟨1, rfl⟩⟩
    · exact Option.some.inj hp ▸ ⟨⟨0, rfl⟩, ⟨3 / 2, rfl⟩⟩
  · intro i j s t _ hs ht _ _ s' t' hps hpt hlevel
    have hs := mem_levelSnaps (Array.mem_of_getElem? hs)
    have ht := mem_levelSnaps (Array.mem_of_getElem? ht)
    obtain rfl := prepared_levelSnaps hs hps
    obtain rfl := prepared_levelSnaps ht hpt
    obtain ⟨d, shape, hd, -, hroad, hst, hts⟩ := hlevel
    -- The fix behind the inner point is not level with the one there.
    have hself : s'.closest = some RoadGraph.onlyRoad := by rcases hs with rfl | rfl <;> rfl
    obtain rfl : RoadGraph.onlyRoad = d := Option.some.inj (hself.symm.trans hd)
    obtain rfl : levelShape 0 = shape := Except.ok.inj (hshape.symm.trans hroad)
    rcases hs with rfl | rfl <;> rcases ht with rfl | rfl
    · rfl
    · exact absurd hts not_notBehind_atInner
    · exact absurd hst not_notBehind_atInner
    · rfl

theorem build_levelSnaps : ∃ o final, Overlay.build (cutRoad 0) levelSnaps = (.ok o, final) := by
  refine exists_build_of_allowed (allowed_of_turned repeatable_levelSnaps.onRoads ?_ ?_)
  · intro s hs _
    have hclosest : s.closest = some RoadGraph.onlyRoad := by
      rcases mem_levelSnaps hs with rfl | rfl <;> rfl
    exact ⟨s, normalized_self (runsBackwards_onlyRoad _) hclosest⟩
  · intro s hs _
    rcases mem_levelSnaps hs with rfl | rfl <;> exact ⟨_, rfl⟩

end Splicing

/-- Three fixes on a road, two of them at one spot, cut in twice. -/
theorem overlay_same_from_own_snaps_cutRoad :
    ∃ o final, Overlay.build (Splicing.cutRoad 0) Splicing.levelSnaps = (.ok o, final) ∧
      ∃ o' final', Overlay.build (Splicing.cutRoad 0) final = (.ok o', final') ∧
        Splicing.CutAgain (Splicing.cutRoad 0) o o' final final' := by
  obtain ⟨o, final, hbuild⟩ := Splicing.build_levelSnaps
  exact ⟨o, final, hbuild, overlay_same_from_own_snaps (Splicing.built_cutRoad 0)
    Splicing.repeatable_levelSnaps hbuild⟩

end RoadSplice

/-
  RoadSplice.Proofs.Overlay.Order — the order of a request.

  Snaps may come in any order.  Those of one road are sorted along it, so what a road becomes depends
  on which snaps it has and not on how they came, as long as snaps that are tied are at one place.
  Only the numbers of the virtual nodes follow the order in which the roads first appear.

  Tied snaps must be where a point coincides with itself: at infinity it does not, so each of them
  becomes a virtual node of its own, and the one that comes first comes first on the road.
-/
import RoadSplice.Proofs.Overlay.Requests

namespace RoadSplice

variable {K : Type} [Scalar K] {g : RoadGraph K}

/-! ## §1. Chains. -/

/-- **What a chain is like**, wherever its nodes and pieces are counted from: its road and direction,
the points of its virtual nodes, and its parts. -/
def Chain.body (c : Chain K) : DirectedEdge × List (Point K) × List (Part K) :=
  (c.road, c.points, c.parts)

namespace Splicing

variable {snaps snaps' final final' : Array (Snap K)} {o o' : Overlay K} {groups groups' : Groups}
  {prepared spliced prepared' spliced' : Splicing K} {cs cs' : List (Chain K)} {e : EdgeId}
  {is : List Nat} {n : NodeId} {closest : DirectedEdge} {shape : Polyline K} {start last : Point K}
  {ss : List (Snap K)}

omit [Scalar K] in
/-- Chains on different roads are told apart by what they are like. -/
theorem nodup_bodies (h : (cs.map (·.road.edge)).Nodup) : (cs.map Chain.body).Nodup := by
  refine List.Nodup.of_map (f := fun b : DirectedEdge × List (Point K) × List (Part K) => b.1.edge) ?_
  rwa [List.map_map]

/-- Virtual nodes that are counted from another number. -/
def shifted (n n' m : NodeId) : NodeId := if n ≤ m then n' + (m - n) else m

theorem shifted_add (n n' j : NodeId) : shifted n n' (n + j) = n' + j := by
  rw [shifted, if_pos (Nat.le_add_right n j), Nat.add_sub_cancel_left]

theorem shifted_of_lt {n m : NodeId} (h : m < n) (n' : NodeId) : shifted n n' m = m :=
  if_neg (Nat.not_le.2 h)

omit [Scalar K] in
/-- The anchor at a real node keeps its number. -/
theorem baseAnchor_renumbered (h : closest.base < n) (start : Point K) (n' : NodeId) :
    (baseAnchor closest start).renumbered (shifted n n') = baseAnchor closest start := by
  unfold Anchor.renumbered baseAnchor
  rw [shifted_of_lt h]

/-- **The same stops** give the same chain. -/
theorem Resolved.chain_of_stops {before before' : Array (Snap K)} {is' : List Nat} {n' : NodeId}
    {ss' : List (Snap K)} {f : NodeId → NodeId}
    (hr : Resolved g before final is g.nodeCount cs n closest shape start last ss)
    (hr' : Resolved g before' final' is' g.nodeCount cs' n' closest shape start last ss')
    (halike : (stopsFrom shape (baseAnchor closest start) n' ss').map
        (fun st => (st.point, st.part)) =
      (stopsFrom shape (baseAnchor closest start) n ss).map fun st => (st.point, st.part))
    (hlast : lastAnchor (baseAnchor closest start) n' ss' =
      (lastAnchor (baseAnchor closest start) n ss).renumbered f)
    (hstops : stopsFrom shape (baseAnchor closest start) n ss ≠ []) :
    ∃ c ∈ cs, ∃ c' ∈ cs', c'.body = c.body ∧ c.road = closest ∧ n = g.nodeCount + c.start ∧
      n' = g.nodeCount + c'.start ∧
      c.points.length = (stopsFrom shape (baseAnchor closest start) n ss).length := by
  have hpoints := congrArg (List.map Prod.fst) halike
  have hparts := congrArg (List.map Prod.snd) halike
  rw [List.map_map, List.map_map] at hpoints hparts
  have hstops' : stopsFrom shape (baseAnchor closest start) n' ss' ≠ [] := by
    intro hnil
    rw [hnil] at halike
    exact hstops (List.map_eq_nil_iff.1 halike.symm)
  obtain ⟨c, hc, hroad, hn, hcpoints, hcparts⟩ := hr.chain hstops
  obtain ⟨c', hc', hroad', hn', hcpoints', hcparts'⟩ := hr'.chain hstops'
  refine ⟨c, hc, c', hc', ?_, hroad, hn, hn', ?_⟩
  · have hsame : c'.points = c.points := by
      rw [hcpoints, hcpoints']
      exact hpoints
    have hsame' : c'.parts = c.parts := by
      rw [hcparts, hcparts', hlast]
      exact congrArg (· ++ _) hparts
    rw [Chain.body, Chain.body, hroad, hroad', hsame, hsame']
  · rw [hcpoints, List.length_map]

/-- **Snaps at the same places** give the same chain. -/
theorem Resolved.chain_alike {before before' : Array (Snap K)} {is' : List Nat} {n' : NodeId}
    {ss' : List (Snap K)}
    (hr : Resolved g before final is g.nodeCount cs n closest shape start last ss)
    (hr' : Resolved g before' final' is' g.nodeCount cs' n' closest shape start last ss')
    (hbare : ss'.map Snap.bare = ss.map Snap.bare) (hbase : closest.base < g.nodeCount)
    (hstops : stopsFrom shape (baseAnchor closest start) n ss ≠ []) :
    ∃ c ∈ cs, ∃ c' ∈ cs', c'.body = c.body ∧ c.road = closest ∧ n = g.nodeCount + c.start ∧
      n' = g.nodeCount + c'.start ∧
      c.points.length = (stopsFrom shape (baseAnchor closest start) n ss).length := by
  obtain ⟨-, halike, hlast⟩ := renumbered_alike shape hbare (shifted_add n n')
    (baseAnchor closest start)
  rw [baseAnchor_renumbered (Nat.lt_of_lt_of_le hbase hr.node_le)] at halike hlast
  exact hr.chain_of_stops hr' halike hlast hstops

/-- **Every chain** has an account of the road on which it lies. -/
theorem BuildSteps.exists_resolved_of_chain
    (h : BuildSteps g snaps final o groups prepared spliced cs) (hroads : OnRoads g snaps)
    (hg : g.WellFormed) {c : Chain K} (hc : c ∈ cs) :
    ∃ e is n closest shape start last ss, (e, is) ∈ groups ∧ is ≠ [] ∧
      Resolved g prepared.snaps final is g.nodeCount cs n closest shape start last ss ∧
      stopsFrom shape (baseAnchor closest start) n ss ≠ [] ∧ closest.edge = c.road.edge := by
  obtain ⟨shape, start, last, ss, ht⟩ := h.threads c hc
  -- The first stop of the chain is a snap, and that is settled with the others of its road.
  have hpos : 0 < (stopsAlong g.nodeCount c shape start ss).length := by
    rw [← List.length_map (·.point), ← ht.points_eq]
    exact List.length_pos_iff.2 (h.roads.laid.points_ne c hc)
  obtain ⟨i, s₀, hs₀, hf, hfinal⟩ := ht.placed 0 _ (List.getElem?_eq_getElem hpos)
  obtain ⟨e, is, n, closest, shape', start', last', ss', hmem, hi, hr, t, hsettled, hread⟩ :=
    h.exists_settled hs₀ hf.not_tower_before
  refine ⟨e, is, n, closest, shape', start', last', ss', hmem, List.ne_nil_of_mem hi, hr, ?_, ?_⟩
  · intro hnil
    obtain rfl := Option.some.inj (hread.symm.trans hfinal)
    rcases node_of_mem_settledFrom shape' hsettled with hnode | ⟨j, hj, -⟩
    · have hbase := hg.touches_lt (h.direction_of_resolved hmem hr hroads).1.touches.1
      have hnode : g.nodeCount + c.start = closest.base := Option.some.inj hnode
      exact absurd hbase (Nat.not_lt.2 (hnode ▸ Nat.le_add_right _ _))
    · rw [hnil] at hj
      exact Nat.not_lt_zero j hj
  · obtain ⟨-, s, s', hs, -, hf'⟩ := h.grouped.filed e is hmem i hi
    obtain rfl : s = s₀ := Option.some.inj (hs.symm.trans hs₀)
    obtain ⟨d, hd, hedge⟩ := hf.exists_closest
    obtain ⟨d', hd', hedge'⟩ := hf'.exists_closest
    rw [hf.prepared.unique hf'.prepared] at hd
    obtain rfl : d = d' := Option.some.inj (hd.symm.trans hd')
    rw [(h.direction_of_resolved hmem hr hroads).2, ← hedge', hedge]

/-! ## §2. Any order. -/

/-- **One snap in two overlays**: at a tower it is the same snap; elsewhere only its nodes differ,
which are the virtual nodes at one position of two chains that are alike. -/
def SameEnd (firstNode : NodeId) (cs cs' : List (Chain K)) (t t' : Snap K) : Prop :=
  (t.position = .tower ∧ t' = t) ∨
    ∃ c ∈ cs, ∃ c' ∈ cs', c'.body = c.body ∧ ∃ j < c.points.length,
      t.node = some (c.node firstNode (j + 1)) ∧
        t' = { t with node := some (c'.node firstNode (j + 1)) }

/-- **Two overlays of one request**: every road has the same chain in both, and every snap ends at
the same place of it. -/
def SameOverlay (g : RoadGraph K) (π : Equiv.Perm Nat) (o o' : Overlay K)
    (final final' : Array (Snap K)) : Prop :=
  ∃ cs cs', Overlay.Spliced g o cs ∧ Overlay.Spliced g o' cs' ∧
    (cs'.map Chain.body).Perm (cs.map Chain.body) ∧
    ∀ (k : Nat) t, final[π k]? = some t →
      ∃ t', final'[k]? = some t' ∧ SameEnd g.nodeCount cs cs' t t'

section

variable [OrderedScalar K] (h : BuildSteps g snaps final o groups prepared spliced cs)
  (h' : BuildSteps g snaps' final' o' groups' prepared' spliced' cs') (hsnaps : Sortable g snaps)
  (hg : g.WellFormed) (π : Equiv.Perm Nat) (hperm : ∀ k : Nat, snaps'[k]? = snaps[π k]?)

include h h' hsnaps hg hperm

/-- **Every chain of one request** is a chain of the other one. -/
theorem BuildSteps.exists_chain_alike {c : Chain K} (hc : c ∈ cs) :
    ∃ c' ∈ cs', c'.body = c.body := by
  obtain ⟨e, is, n, closest, shape, start, last, ss, hmem, hne, hr, hstops, hedge⟩ :=
    h.exists_resolved_of_chain hsnaps.hasDirection hg hc
  obtain ⟨is', n', ss', -, hr', hbare⟩ := h.exists_counterpart h' hsnaps π hperm hmem hne hr
  have hbase := hg.touches_lt (h.direction_of_resolved hmem hr hsnaps.hasDirection).1.touches.1
  obtain ⟨c₁, hc₁, c', hc', hbody, hroad, -⟩ := hr.chain_alike hr' hbare hbase hstops
  -- No other chain lies on the road.
  obtain rfl : c₁ = c := List.inj_on_of_nodup_map h.distinct hc₁ hc (by rw [hroad, hedge])
  exact ⟨c', hc', hbody⟩

omit hg in
/-- A snap of a road ends at one anchor in both requests, but for the number of its node. -/
theorem BuildSteps.exists_end_alike {is' : List Nat} {n' : NodeId} {ss' : List (Snap K)}
    (hmem : (e, is) ∈ groups) (hmem' : (e, is') ∈ groups')
    (hr : Resolved g prepared.snaps final is g.nodeCount cs n closest shape start last ss)
    (hr' : Resolved g prepared'.snaps final' is' g.nodeCount cs' n' closest shape start last ss')
    (hbare : ss'.map Snap.bare = ss.map Snap.bare) (hbase : closest.base < n) {k : Nat}
    (hi : π k ∈ is) :
    ∃ x ∈ endsFrom (baseAnchor closest start) n ss, final[π k]? = some (collapsed x.1 x.2) ∧
      final'[k]? = some (collapsed x.1 (x.2.renumbered (shifted n n'))) := by
  have hk := (h.mem_group_permuted h' hsnaps π hperm hmem hmem' k).2 hi
  obtain ⟨x, hx, hread, hfinal⟩ := h.exists_end hsnaps hmem hr hi
  obtain ⟨x', hx', hread', hfinal'⟩ := h'.exists_end (hsnaps.permuted π hperm) hmem' hr' hk
  rw [h.prepared_permuted h' hsnaps π hperm hmem hmem' hk, hread] at hread'
  have hsnap : x.1 = x'.1 := Option.some.inj hread'
  refine ⟨x, hx, hfinal, ?_⟩
  -- Somewhere on the first road a snap at the same place ends where this one does on the second.
  have hends := (renumbered_alike shape hbare (shifted_add n n') (baseAnchor closest start)).1
  rw [baseAnchor_renumbered hbase] at hends
  have hplaced := List.mem_map_of_mem (f := fun x : Snap K × Anchor K => (x.1.bare, x.2)) hx'
  rw [hends] at hplaced
  obtain ⟨y, hy, heq⟩ := List.mem_map.1 hplaced
  obtain ⟨hplace, hspot⟩ := Prod.mk.inj heq
  have hsame : y.2 = x.2 :=
    end_eq_of_bare_eq (fun s hs => (h.snap_of_resolved hsnaps hmem hr hs).2.exists_point)
      (h.precedes hsnaps hmem hr) hy hx (hplace.trans (by rw [hsnap]))
  rw [hfinal', ← hsnap, ← hspot, hsame]

/-- **Every snap** ends at the same place in both requests. -/
theorem BuildSteps.exists_sameEnd {k : Nat} {t : Snap K} (ht : final[π k]? = some t) :
    ∃ t', final'[k]? = some t' ∧ SameEnd g.nodeCount cs cs' t t' := by
  have hlt : π k < snaps.size := h.size_eq ▸ (Array.getElem?_eq_some_iff.1 ht).1
  have hs := Array.getElem?_eq_getElem hlt
  -- A snap at a tower is left alone.  Any other ends at the base node of its road or at a stop.
  by_cases hpos : snaps[π k].position = .tower
  · obtain rfl := Option.some.inj (ht.symm.trans (h.tower hs hpos))
    exact ⟨_, h'.tower ((hperm k).trans hs) hpos, .inl ⟨hpos, rfl⟩⟩
  · obtain ⟨e, is, n, closest, shape, start, last, ss, hmem, hi, hr, -⟩ := h.exists_settled hs hpos
    obtain ⟨is', n', ss', hmem', hr', hbare⟩ :=
      h.exists_counterpart h' hsnaps π hperm hmem (List.ne_nil_of_mem hi) hr
    have hbase := hg.touches_lt (h.direction_of_resolved hmem hr hsnaps.hasDirection).1.touches.1
    have hreal := Nat.lt_of_lt_of_le hbase hr.node_le
    obtain ⟨x, hx, hfinal, hfinal'⟩ :=
      h.exists_end_alike h' hsnaps π hperm hmem hmem' hr hr' hbare hreal hi
    obtain rfl := Option.some.inj (ht.symm.trans hfinal)
    refine ⟨_, hfinal', ?_⟩
    rcases end_cases shape hx with heq | ⟨j, hj, hnode⟩
    · rw [heq, baseAnchor_renumbered hreal]
      exact .inl ⟨rfl, rfl⟩
    · obtain ⟨c, hc, c', hc', hbody, -, hn, hn', hlength⟩ := hr.chain_alike hr' hbare hbase
        (List.ne_nil_of_length_pos (Nat.zero_lt_of_lt hj))
      have hlength' : c'.points.length = c.points.length := by
        rw [show c'.points = c.points from congrArg (·.2.1) hbody]
      refine .inr ⟨c, hc, c', hc', hbody, j, hlength ▸ hj, ?_, ?_⟩
      · rw [c.node_virtual _ (hlength ▸ hj), ← Nat.add_assoc, ← hn, ← hnode]
        rfl
      · rw [c'.node_virtual _ (hlength' ▸ hlength ▸ hj), ← Nat.add_assoc, ← hn',
          ← shifted_add n n', ← hnode]
        rfl

end

end Splicing

/-- **Request order does not matter**: a request in another order is built too, every road gets the
same chain, and every snap ends at the same place of it. -/
theorem overlay_same_in_any_order [OrderedScalar K] (hg : g.Built) {snaps snaps' : Array (Snap K)}
    (hsnaps : Splicing.Sortable g snaps) (π : Equiv.Perm Nat)
    (hperm : ∀ k : Nat, snaps'[k]? = snaps[π k]?) {o : Overlay K} {final : Array (Snap K)}
    (hbuild : Overlay.build g snaps = (.ok o, final)) :
    ∃ o' final', Overlay.build g snaps' = (.ok o', final') ∧
      Splicing.SameOverlay g π o o' final final' := by
  obtain ⟨groups, prepared, spliced, cs, h⟩ := Splicing.exists_buildSteps hbuild
  obtain ⟨o', final', hbuild'⟩ := h.exists_build hsnaps π hperm
  obtain ⟨groups', prepared', spliced', cs', h'⟩ := Splicing.exists_buildSteps hbuild'
  have hsnaps' := hsnaps.permuted π hperm
  have hback : ∀ k : Nat, snaps[k]? = snaps'[π.symm k]? := fun k => by
    rw [hperm, π.apply_symm_apply]
  refine ⟨o', final', hbuild', cs, cs',
    (Overlay.spliced_of_steps hg.wellFormed hsnaps.hasDirection h).1,
    (Overlay.spliced_of_steps hg.wellFormed hsnaps'.hasDirection h').1, ?_,
    fun k t ht => h.exists_sameEnd h' hsnaps hg.wellFormed π hperm ht⟩
  -- No chain is there twice on either side, so it is enough to compare what is there.
  refine (List.perm_ext_iff_of_nodup (Splicing.nodup_bodies h'.distinct)
    (Splicing.nodup_bodies h.distinct)).2 fun b => ?_
  constructor
  · intro hb
    obtain ⟨c', hc', rfl⟩ := List.mem_map.1 hb
    obtain ⟨c, hc, hbody⟩ := h'.exists_chain_alike h hsnaps' hg.wellFormed π.symm hback hc'
    exact List.mem_map.2 ⟨c, hc, hbody⟩
  · intro hb
    obtain ⟨c, hc, rfl⟩ := List.mem_map.1 hb
    obtain ⟨c', hc', hbody⟩ := h.exists_chain_alike h' hsnaps hg.wellFormed π hperm hc
    exact List.mem_map.2 ⟨c', hc', hbody⟩

/-! ## §3. Two fixes on a road. -/

namespace Splicing

open Exact (onParallel)

/-- A snap with a point, once it has been measured. -/
theorem measured_measured {s : Snap K} {p : Point K} (hp : s.point = some p) :
    s.measured.Measured := by
  refine ⟨⟨p, (point_measured s).trans hp⟩, ?_⟩
  unfold Snap.measured
  simp [hp]

/-- The first and the second entry of a list of two. -/
theorem getElem?_pair {α : Type} {x y z : α} {i : Nat} (h : (#[x, y] : Array α)[i]? = some z) :
    (i = 0 ∧ z = x) ∨ (i = 1 ∧ z = y) := by
  match i with
  | 0 => exact .inl ⟨rfl, (Option.some.inj h).symm⟩
  | 1 => exact .inr ⟨rfl, (Option.some.inj h).symm⟩
  | _ + 2 => simp at h

theorem getElem?_pair_swap {α : Type} (x y : α) (k : Nat) :
    (#[y, x] : Array α)[k]? = #[x, y][Equiv.swap 0 1 k]? := by
  match k with
  | 0 => rw [Equiv.swap_apply_left]; rfl
  | 1 => rw [Equiv.swap_apply_right]; rfl
  | k + 2 =>
    rw [Equiv.swap_apply_of_ne_of_ne (by omega) (by omega)]
    simp

/-- A fix behind an inner point is not tied with one at it. -/
theorem not_notBehind_atInner : ¬ NotBehind (levelShape 0) (between 0) (atInner 0) := by
  rintro ⟨k, l, hk, hl, hkl⟩
  obtain rfl := Option.some.inj ((along_between 0).symm.trans hk)
  obtain rfl := Option.some.inj ((along_atInner 0).symm.trans hl)
  rcases atOrBefore_iff.1 hkl with hlt | ⟨-, hle⟩
  · exact Nat.lt_irrefl _ hlt
  · rw [Exact.order_isLE_iff, Exact.real_le_real] at hle
    have hpos : 0 < (Real.cos (0 * (Real.pi / 180)) * ((3 / 2 - 1) * (Real.pi / 180))) ^ 2 := by
      rw [zero_mul, Real.cos_zero]
      positivity
    rcases hle with hle | hnan
    · exact absurd hle (not_le.2 hpos)
    · cases hnan

/-- The fixes that cut a road twice, with their points measured. -/
noncomputable def measuredSnaps : Array (Snap Exact) := #[(atInner 0).measured, (between 0).measured]

theorem sortable_measuredSnaps : Sortable (cutRoad 0) measuredSnaps := by
  have hroad : ∀ {i : Nat} {s : Snap Exact}, measuredSnaps[i]? = some s →
      s.closest = some RoadGraph.onlyRoad := by
    intro i s hs
    rcases getElem?_pair hs with ⟨-, rfl⟩ | ⟨-, rfl⟩ <;> rfl
  have hdir : Snap.runsBackwards (cutRoad 0) RoadGraph.onlyRoad = .ok false :=
    runsBackwards_onlyRoad _
  -- One of the two fixes lies behind the other one, so they are not tied.
  have hties : ∀ (i j : Nat) s t, i ≠ j → measuredSnaps[i]? = some s → measuredSnaps[j]? = some t →
      ¬ Tied (cutRoad 0) s t := by
    rintro i j s t hne hs ht ⟨-, -, s', t', d, shape, hs', ht', hd, -, hshape, hst, hts⟩
    obtain rfl : s = s' := Except.ok.inj ((normalized_self hdir (hroad hs)).symm.trans hs')
    obtain rfl : t = t' := Except.ok.inj ((normalized_self hdir (hroad ht)).symm.trans ht')
    obtain rfl : RoadGraph.onlyRoad = d := Option.some.inj ((hroad hs).symm.trans hd)
    obtain rfl : levelShape 0 = shape :=
      Except.ok.inj ((shape_onlyRoad (K := Exact) _ _ _ _ _).symm.trans hshape)
    rcases getElem?_pair hs with ⟨rfl, rfl⟩ | ⟨rfl, rfl⟩ <;>
      rcases getElem?_pair ht with ⟨rfl, rfl⟩ | ⟨rfl, rfl⟩
    · exact hne rfl
    · exact not_notBehind_atInner hts
    · exact not_notBehind_atInner hst
    · exact hne rfl
  refine ⟨⟨fun s hs => ?_, fun s hs => ?_, fun i j s t hs ht d e hd he _ _ => ?_,
    fun i j s t hne hs ht htied => absurd htied (hties i j s t hne hs ht)⟩,
    fun i j s t hne hs ht htied => absurd htied (hties i j s t hne hs ht)⟩
  · obtain ⟨i, hi⟩ := Array.mem_iff_getElem?.1 hs
    exact ⟨_, hroad hi, RoadGraph.hasDirection_onlyRoad _ _ _ _ _⟩
  · obtain ⟨i, hi⟩ := Array.mem_iff_getElem?.1 hs
    rcases getElem?_pair hi with ⟨-, rfl⟩ | ⟨-, rfl⟩ <;> exact measured_measured rfl
  · exact Option.some.inj (hd.symm.trans ((hroad hs).trans ((hroad ht).symm.trans he)))

theorem build_measuredSnaps :
    ∃ o final, Overlay.build (cutRoad 0) measuredSnaps = (.ok o, final) := by
  refine exists_build_of_allowed (allowed_of_turned sortable_measuredSnaps.onRoads (fun s hs _ => ?_)
    fun s hs _ => (sortable_measuredSnaps.measured s hs).exists_point)
  obtain ⟨i, hi⟩ := Array.mem_iff_getElem?.1 hs
  rcases getElem?_pair hi with ⟨-, rfl⟩ | ⟨-, rfl⟩ <;>
    exact ⟨_, normalized_self (runsBackwards_onlyRoad _) rfl⟩

end Splicing

/-- Two fixes on a road, in both orders. -/
theorem overlay_same_in_any_order_cutRoad :
    ∃ o final, Overlay.build (Splicing.cutRoad 0)
        #[(Splicing.atInner 0).measured, (Splicing.between 0).measured] = (.ok o, final) ∧
      ∃ o' final', Overlay.build (Splicing.cutRoad 0)
          #[(Splicing.between 0).measured, (Splicing.atInner 0).measured] = (.ok o', final') ∧
        Splicing.SameOverlay (Splicing.cutRoad 0) (Equiv.swap 0 1) o o' final final' := by
  obtain ⟨o, final, hbuild⟩ := Splicing.build_measuredSnaps
  exact ⟨o, final, hbuild, overlay_same_in_any_order (Splicing.built_cutRoad 0)
    Splicing.sortable_measuredSnaps (Equiv.swap 0 1) (Splicing.getElem?_pair_swap _ _) hbuild⟩

/-! ## §4. Fixes at infinity. -/

namespace Exact

/-- **At infinity nothing coincides**, not even a point with itself. -/
theorem coincides_infinite (p : Point Exact) (lat ele : Exact) (n : Bool) :
    p.coincides ⟨lat, infinite n, ele⟩ = false := by
  refine Bool.eq_false_iff.2 fun h => ?_
  obtain ⟨x, hx⟩ := (isReal_of_coincides h).2.2
  cases hx

end Exact

namespace Splicing

open Exact (onParallel)

/-- A position infinitely far to the east. -/
noncomputable def farEast (lat : ℝ) : Point Exact := .flat (Exact.real lat) (Exact.infinite false)

/-- A fix there, on a segment of the road along the equator. -/
noncomputable def farSnap (lat : ℝ) : Snap Exact :=
  { Snap.onEdge (farEast lat) RoadGraph.onlyRoad 1 .edge with point := some (farEast 0) }.measured

theorem located_farSnap (lat : ℝ) : (farSnap lat).located (cutRoad 0) = .ok (farSnap lat) := by
  have hshape : RoadGraph.onlyRoad.shape (cutRoad 0) = .ok (levelShape 0) := shape_onlyRoad _ _ _ _ _
  have hhere : (levelShape 0).get? (farSnap lat).wayIndex = some (onParallel 0 1) := rfl
  have hnext : (levelShape 0).get? ((farSnap lat).wayIndex + 1) = some (onParallel 0 2) := rfl
  refine (located_edge rfl hshape hhere hnext rfl).trans ?_
  show Except.ok ({ farSnap lat with
    point := some (Snap.footOn (farEast lat) (onParallel 0 1) (onParallel 0 2) false) } :
      Snap Exact).measured = _
  rw [footOn_onParallel]
  rfl

theorem farSnap_ne {x y : ℝ} (h : x ≠ y) : farSnap x ≠ farSnap y := by
  intro heq
  have hlat : Exact.real x = Exact.real y := congrArg (·.query.lat) heq
  exact h (Exact.real.inj hlat)

theorem notBehind_farSnap (x y : ℝ) : NotBehind (levelShape 0) (farSnap x) (farSnap y) := by
  have hself : ∀ k : Nat × Exact, atOrBefore k k = true := fun k => by
    simpa using atOrBefore_total k k
  exact ⟨_, _, rfl, rfl, hself _⟩

/-- **Two such fixes** become two virtual nodes, the one that comes first before the other one. -/
theorem build_farSnaps {x y : ℝ} (hne : x ≠ y) :
    ∃ o final, Overlay.build (cutRoad 0) #[farSnap x, farSnap y] = (.ok o, final) ∧
      final[0]? = some ((farSnap x).setNode 2) ∧ final[1]? = some ((farSnap y).setNode 3) := by
  have hplace : ∀ z, InPlace RoadGraph.onlyRoad (levelShape 0) (farSnap z) := fun z =>
    ⟨⟨_, rfl, .inl rfl⟩, by simp [farSnap, Snap.onEdge, Snap.measured], ⟨_, rfl⟩, ⟨_, rfl⟩⟩
  have hfar : ∀ (p : Point Exact) z, p.coincides ((farSnap z).point.getD p) = false :=
    fun p z => Exact.coincides_infinite p _ _ _
  obtain ⟨o, final, hbuild, -, hsettled⟩ := build_onlyRoad (onParallel 0 0) (onParallel 0 3)
    [onParallel 0 1, onParallel 0 2] (levelLength 0 (atInner 0) (between 0)) 0
    (s := farSnap x) [farSnap y] (by simpa using ⟨hplace x, hplace y⟩)
    (List.pairwise_pair.2 (notBehind_farSnap x y)) (hfar _ x)
  have hsettled := hsettled (by simpa using farSnap_ne hne)
  rw [RoadGraph.nodeCount_oneRoad] at hsettled
  unfold settledFrom settledFrom settledFrom at hsettled
  rw [if_neg (by simp [hfar]), if_neg (by simp [hfar])] at hsettled
  exact ⟨o, final, hbuild, hsettled 0 (by simp), hsettled 1 (by simp)⟩

theorem orderable_farSnaps (x y : ℝ) : Orderable (cutRoad 0) #[farSnap x, farSnap y] := by
  have hfar : ∀ {i : Nat} {s : Snap Exact}, (#[farSnap x, farSnap y] : Array (Snap Exact))[i]? =
      some s → ∃ z, s = farSnap z := by
    intro i s hs
    rcases getElem?_pair hs with ⟨-, rfl⟩ | ⟨-, rfl⟩
    · exact ⟨x, rfl⟩
    · exact ⟨y, rfl⟩
  refine ⟨fun s hs => ?_, fun s hs => ?_, fun i j s t hs ht d e hd he _ _ => ?_,
    fun i j s t _ hs ht _ => ?_⟩
  · obtain ⟨i, hi⟩ := Array.mem_iff_getElem?.1 hs
    obtain ⟨z, rfl⟩ := hfar hi
    exact ⟨_, rfl, RoadGraph.hasDirection_onlyRoad _ _ _ _ _⟩
  · obtain ⟨i, hi⟩ := Array.mem_iff_getElem?.1 hs
    obtain ⟨z, rfl⟩ := hfar hi
    exact measured_measured rfl
  · obtain ⟨z, rfl⟩ := hfar hs
    obtain ⟨z', rfl⟩ := hfar ht
    exact Option.some.inj (hd.symm.trans he)
  · obtain ⟨z, rfl⟩ := hfar hs
    obtain ⟨z', rfl⟩ := hfar ht
    exact ⟨rfl, rfl⟩

/-- On a graph of one road there is one chain at most, so it begins with the first virtual node. -/
theorem start_eq_zero {o : Overlay Exact} {cs : List (Chain Exact)}
    (h : Overlay.Spliced (cutRoad 0) o cs) {c : Chain Exact} (hc : c ∈ cs) : c.start = 0 := by
  have hedge : ∀ c ∈ cs, c.road.edge = 0 := by
    intro c hc
    obtain ⟨r, hr, -⟩ := h.direction c hc
    have hlt := (Array.getElem?_eq_some_iff.1 hr).1
    rw [show (cutRoad 0).roads = _ from (RoadGraph.oneRoad_eq _ _ _ _ _).2.1] at hlt
    exact Nat.lt_one_iff.1 hlt
  have hpos := List.length_pos_iff.2 (h.laid.points_ne c hc)
  have hnode := (h.laid.carries c hc).node 0 _ (List.getElem?_eq_getElem hpos)
  obtain ⟨c₀, hc₀, j, -, hzero⟩ := h.laid.exists_node 0
    (Nat.zero_lt_of_lt (Array.getElem?_eq_some_iff.1 hnode).1)
  obtain rfl : c = c₀ :=
    List.inj_on_of_nodup_map h.distinct hc hc₀ ((hedge c hc).trans (hedge c₀ hc₀).symm)
  omega

end Splicing

/-- **At infinity the order does matter**: of two tied snaps there the first one comes first on the
road. -/
theorem order_matters_at_infinity :
    ¬ ∀ (g : RoadGraph Exact) (snaps snaps' : Array (Snap Exact)) (π : Equiv.Perm Nat)
      (o : Overlay Exact) (final : Array (Snap Exact)), g.Built →
        (∀ s ∈ snaps, s.located g = .ok s) → Splicing.Orderable g snaps →
        (∀ k : Nat, snaps'[k]? = snaps[π k]?) → Overlay.build g snaps = (.ok o, final) →
          ∃ o' final', Overlay.build g snaps' = (.ok o', final') ∧
            Splicing.SameOverlay g π o o' final final' := by
  intro hall
  obtain ⟨o, final, hbuild, -, hsecond⟩ := Splicing.build_farSnaps zero_ne_one
  obtain ⟨o₁, final₁, hbuild₁, hfirst, -⟩ := Splicing.build_farSnaps one_ne_zero
  have hlocated : ∀ s ∈ (#[Splicing.farSnap 0, Splicing.farSnap 1] : Array (Snap Exact)),
      s.located (Splicing.cutRoad 0) = .ok s := by
    intro s hs
    obtain ⟨i, hi⟩ := Array.mem_iff_getElem?.1 hs
    rcases Splicing.getElem?_pair hi with ⟨-, rfl⟩ | ⟨-, rfl⟩ <;> exact Splicing.located_farSnap _
  obtain ⟨o', final', hbuild', cs, cs', h, h', -, hends⟩ := hall _ _ _ (Equiv.swap 0 1) o final
    (Splicing.built_cutRoad 0) hlocated (Splicing.orderable_farSnaps 0 1)
    (Splicing.getElem?_pair_swap _ _) hbuild
  obtain ⟨-, rfl⟩ : o₁ = o' ∧ final₁ = final' := by simpa using hbuild₁.symm.trans hbuild'
  obtain ⟨t', ht', hsame⟩ := hends 0 _ (by rw [Equiv.swap_apply_left, hsecond])
  obtain rfl := Option.some.inj (hfirst.symm.trans ht')
  rcases hsame with ⟨htower, -⟩ | ⟨c, hc, c', hc', hbody, j, hj, hnode, heq⟩
  · cases htower
  · -- The same position on the only chain would be the same number.
    have hj' : j < c'.points.length := by
      rwa [show c'.points = c.points from congrArg (·.2.1) hbody]
    have hnode' : some 2 = some (c'.node _ (j + 1)) := congrArg Snap.node heq
    have hnode : some 3 = some (c.node _ (j + 1)) := hnode
    rw [c.node_virtual _ hj, Splicing.start_eq_zero h hc] at hnode
    rw [c'.node_virtual _ hj', Splicing.start_eq_zero h' hc'] at hnode'
    exact absurd (hnode.trans hnode'.symm) (by decide)

end RoadSplice

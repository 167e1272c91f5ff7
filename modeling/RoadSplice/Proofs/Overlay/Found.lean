/-
  RoadSplice.Proofs.Overlay.Found — snaps that were found on roads.

  A snap is found on a road by its way index and position.  Turning it to the direction of its road
  counts the way index from the other end, so the snap stays where it is on the shape; and a road
  that has been turned round need not be turned again.
-/
import RoadSplice.Proofs.Overlay.OneRoad

namespace RoadSplice

variable {K : Type} [Scalar K] {g : RoadGraph K} {d : DirectedEdge} {shape : Polyline K}

/-! ## §1. Roads in their own direction. -/

/-- The roads of a graph have shapes. -/
theorem RoadGraph.HasDirection.exists_shape (h : g.HasDirection d) :
    ∃ shape, d.shape g = .ok shape := by
  obtain ⟨r, hr, -⟩ := h
  unfold DirectedEdge.shape RoadGraph.edgeNodes
  rw [hr]
  exact ⟨_, rfl⟩

/-- The shape of a road the other way round. -/
theorem DirectedEdge.shape_reversed (h : d.shape g = .ok shape) :
    d.reversed.shape g = .ok shape.reverse := by
  unfold DirectedEdge.shape at h ⊢
  obtain ⟨ends, hends, hshape⟩ := except_bind.1 h
  obtain rfl := Except.ok.inj hshape
  show (g.edgeNodes d.edge).map _ = _
  rw [hends]
  show Except.ok (g.fullGeometry d.edge (!d.reverse)) = _
  unfold RoadGraph.fullGeometry
  cases g.roads[d.edge]? with
  | none => rfl
  | some r => cases d.reverse <;> simp

omit [Scalar K] in
/-- The points of a shape from its other end. -/
theorem Polyline.get?_reverse (s : Polyline K) {i j : Nat} (h : i + j + 1 = s.length) :
    s.reverse.get? i = s.get? j := by
  have hlen : i + j + 1 = s.points.length := h
  unfold Polyline.get? Polyline.reverse
  rw [List.getElem?_reverse (by omega)]
  congr 1
  omega

/-- **A road that has been turned round** is in its own direction. -/
theorem Snap.runsBackwards_reversed [OrderedScalar K] (h : Snap.runsBackwards g d = .ok true) :
    Snap.runsBackwards g d.reversed = .ok false := by
  unfold Snap.runsBackwards at h ⊢
  by_cases hloop : d.base = d.adj
  · -- The first and the last inner point of a loop change places.
    rw [if_pos hloop] at h
    rw [if_pos (show d.reversed.base = d.reversed.adj from hloop.symm)]
    obtain ⟨shape, hshape, h⟩ := except_bind.1 h
    rw [DirectedEdge.shape_reversed hshape]
    show (if 3 < shape.reverse.length then _ else _) = _
    rw [Polyline.length_reverse]
    by_cases hlong : 3 < shape.length
    · rw [if_pos hlong] at h ⊢
      rw [shape.get?_reverse (i := 1) (j := shape.length - 2) (by omega),
        shape.get?_reverse (i := shape.length - 2) (j := 1) (by omega)]
      cases hp : shape.get? 1 with
      | none => simp [hp] at h
      | some p =>
        cases hq : shape.get? (shape.length - 2) with
        | none => simp [hp, hq] at h
        | some q =>
          simp only [hp, hq, except_pure, decide_eq_true_eq] at h
          simpa using OrderedScalar.lt_asymm _ _ h
    · rw [if_neg hlong] at h
      cases h
  · rw [if_neg hloop] at h
    rw [if_neg (show ¬ d.reversed.base = d.reversed.adj from fun heq => hloop heq.symm)]
    have hlt : d.adj < d.base := by simpa using h
    show Except.ok (decide (d.base < d.adj)) = _
    rw [decide_eq_false (Nat.lt_asymm hlt)]

/-! ## §2. Snaps that were found on roads. -/

namespace Splicing

variable {snaps : Array (Snap K)}

/-- **Snaps found on roads**: the point of a snap, where it has one, is the one that is found from
its place; a snap at an inner point is at neither end; those on a loop share its direction. -/
structure Found (g : RoadGraph K) (snaps : Array (Snap K)) : Prop where
  onRoads : OnRoads g snaps
  located : ∀ (i : Nat) s, snaps[i]? = some s → ∀ p, s.point = some p →
    ∃ t, s.located g = .ok t ∧ t.point = some p
  inner : ∀ (i : Nat) s, snaps[i]? = some s → s.position = .pillar →
    ∀ d shape, s.closest = some d → d.shape g = .ok shape →
      0 < s.wayIndex ∧ s.wayIndex + 1 < shape.length
  loops : ∀ (i j : Nat) s t, snaps[i]? = some s → snaps[j]? = some t →
    ∀ d e, s.closest = some d → t.closest = some e → d.edge = e.edge → d.base = d.adj → d = e

/-- The inner points at which snaps lie are told apart from all others. -/
def PillarsApart (g : RoadGraph K) (snaps : Array (Snap K)) : Prop :=
  ∀ (i : Nat) s, snaps[i]? = some s → s.position = .pillar → ∀ d shape p, s.closest = some d →
    d.shape g = .ok shape → shape.get? s.wayIndex = some p → Geo.Separates p

/-- Where a snap is on a shape, whatever the direction. -/
structure Within (shape : Polyline K) (s : Snap K) : Prop where
  before_end : s.wayIndex + 1 < shape.length
  inner : s.position = .pillar → 0 < s.wayIndex

/-- **Turning a snap** leaves it where it is on the road. -/
structure TurnedTo (g : RoadGraph K) (shape : Polyline K) (s s' : Snap K) (d' : DirectedEdge)
    (shape' : Polyline K) : Prop where
  closest : s'.closest = some d'
  shape_eq : d'.shape g = .ok shape'
  position : s'.position = s.position
  point : s'.point = s.point
  direction : Snap.runsBackwards g d' = .ok false
  within : s.position ≠ .tower → Within shape s → Within shape' s'
  same_point : s.position = .pillar → s.wayIndex < shape.length →
    shape'.get? s'.wayIndex = shape.get? s.wayIndex

theorem normalized_turned [OrderedScalar K] {s s' : Snap K} (h : s.normalized g = .ok s')
    (hd : s.closest = some d) (hshape : d.shape g = .ok shape) :
    ∃ d' shape', TurnedTo g shape s s' d' shape' := by
  rcases normalized_cases h with ⟨rfl, hdir⟩ | ⟨d', shape', index, hd', hback, hshape', hindex, rfl⟩
  · exact ⟨d, shape, hd, hshape, rfl, rfl, hdir d hd, fun _ h => h, fun _ _ => rfl⟩
  · obtain rfl : d = d' := Option.some.inj (hd.symm.trans hd')
    obtain rfl : shape.reverse = shape' :=
      Except.ok.inj ((DirectedEdge.shape_reversed hshape).symm.trans hshape')
    have hindex : s.wayIndex + (if s.position = .pillar then 1 else 2) ≤ shape.length ∧
        index = shape.length - (s.wayIndex + (if s.position = .pillar then 1 else 2)) := by
      unfold Snap.indexFromEnd at hindex
      rw [Polyline.length_reverse] at hindex
      simp only [Option.ite_none_right_eq_some, Option.some.injEq] at hindex
      exact ⟨hindex.1, hindex.2.symm⟩
    -- Inner points count from the other end; the start of a segment becomes its end.
    refine ⟨d.reversed, shape.reverse, rfl, hshape', rfl, rfl, Snap.runsBackwards_reversed hback,
      fun hpos hin => ⟨?_, ?_⟩, fun hpos hlt => ?_⟩
    · have := hin.before_end
      have hinner := hin.inner
      rw [Polyline.length_reverse]
      show index + 1 < shape.length
      by_cases hp : s.position = .pillar
      · have := hinner hp
        simp only [hp, ↓reduceIte] at hindex
        omega
      · simp only [hp, ↓reduceIte] at hindex
        omega
    · intro hp
      have := hin.before_end
      have hp : s.position = .pillar := hp
      show 0 < index
      simp only [hp, ↓reduceIte] at hindex
      omega
    · simp only [hpos, ↓reduceIte] at hindex
      exact shape.get?_reverse (show index + s.wayIndex + 1 = shape.length by omega)

theorem Prepared.position_eq {s s' : Snap K} (h : Prepared g s s') : s'.position = s.position := by
  obtain ⟨turned, hturned, hcases⟩ := h
  have hturn : turned.position = s.position := by
    rcases normalized_cases hturned with ⟨rfl, -⟩ | ⟨-, -, -, -, -, -, -, rfl⟩ <;> rfl
  rcases hcases with ⟨-, hloc⟩ | ⟨-, rfl⟩
  · obtain ⟨-, -, -, -, -, -, -, -, hposition, -⟩ := located_inv hloc
    exact hposition.trans hturn
  · exact hturn

/-- The road of a prepared snap is that of the snap, perhaps turned round. -/
theorem Prepared.exists_closest {s s' turned : Snap K} (hturned : s.normalized g = .ok turned)
    (hcases : (turned.point.isNone = true ∧ turned.located g = .ok s') ∨
      (turned.point.isNone = false ∧ s' = turned)) (hd : s'.closest = some d) :
    turned.closest = some d ∧ ∃ d₀, s.closest = some d₀ ∧ (d = d₀ ∨ d = d₀.reversed) := by
  have hclosest : turned.closest = some d := by
    rcases hcases with ⟨-, hloc⟩ | ⟨-, rfl⟩
    · obtain ⟨-, -, -, -, -, -, hclosest, -⟩ := located_inv hloc
      exact hclosest.symm.trans hd
    · exact hd
  refine ⟨hclosest, ?_⟩
  rcases normalized_cases hturned with ⟨rfl, -⟩ | ⟨d₀, shape, index, hd₀, -, -, -, heq⟩
  · exact ⟨d, hclosest, .inl rfl⟩
  · rw [heq] at hclosest
    exact ⟨d₀, hd₀, .inr (Option.some.inj hclosest).symm⟩

/-- A snap at an inner point is within the shape of its road. -/
theorem Found.within_pillar (h : Found g snaps) {i : Nat} {s : Snap K} (hs : snaps[i]? = some s)
    (hd : s.closest = some d) (hshape : d.shape g = .ok shape) (hpos : s.position = .pillar) :
    Within shape s :=
  have hinner := h.inner i s hs hpos d shape hd hshape
  ⟨hinner.2, fun _ => hinner.1⟩

/-- **Preparing a snap** gives it a place within the shape of its road; at an inner point, its
point is the one there. -/
theorem Found.prepared_within (h : Found g snaps) {i : Nat} {s s' turned : Snap K} {e : DirectedEdge}
    {shape' : Polyline K} (hs : snaps[i]? = some s) (hpos : s.position ≠ .tower)
    (hd : s.closest = some d) (hshape : d.shape g = .ok shape)
    (ht : TurnedTo g shape s turned e shape')
    (hcases : (turned.point.isNone = true ∧ turned.located g = .ok s') ∨
      (turned.point.isNone = false ∧ s' = turned)) :
    Within shape' s' ∧ s'.wayIndex = turned.wayIndex ∧
      (s.position = .pillar → s'.point = shape'.get? turned.wayIndex) := by
  rcases hcases with ⟨-, hloc⟩ | ⟨hsome, rfl⟩
  · -- The point is found once the snap has been turned.
    obtain ⟨e', shape'', here, he, hshape'', hhere, -, hindex, hposition, hpoint⟩ := located_inv hloc
    obtain rfl : e = e' := Option.some.inj (ht.closest.symm.trans he)
    obtain rfl : shape' = shape'' := Except.ok.inj (ht.shape_eq.symm.trans hshape'')
    have hposition : s'.position = s.position := hposition.trans ht.position
    rcases hpoint with ⟨hedge, next, hnext, -⟩ | ⟨hne, hp⟩
    · have hlt := (List.getElem?_eq_some_iff.1 hnext).1
      have hedge : s.position = .edge := ht.position.symm.trans hedge
      refine ⟨⟨hindex ▸ hlt, fun hp => ?_⟩, hindex, fun hp => ?_⟩
      · rw [hposition, hedge] at hp
        cases hp
      · rw [hedge] at hp
        cases hp
    · have hpillar : s.position = .pillar := by
        rw [ht.position] at hne
        cases hcase : s.position <;> simp_all
      have hin := ht.within hpos (h.within_pillar hs hd hshape hpillar)
      refine ⟨⟨hindex ▸ hin.before_end, fun _ => ?_⟩, hindex, fun _ => hp.trans hhere.symm⟩
      rw [hindex]
      exact hin.inner (ht.position.trans hpillar)
  · -- The snap has a point, the one that is found from its place before it is turned.
    obtain ⟨p, hp⟩ := Option.isSome_iff_exists.1 (show s'.point.isSome = true by simpa using hsome)
    obtain ⟨t, hloc, htp⟩ := h.located i s hs p (ht.point.symm.trans hp)
    obtain ⟨d', shape₁, here, hd', hshape₁, hhere, -, -, -, hpoint⟩ := located_inv hloc
    obtain rfl : d = d' := Option.some.inj (hd.symm.trans hd')
    obtain rfl : shape = shape₁ := Except.ok.inj (hshape.symm.trans hshape₁)
    rcases hpoint with ⟨hedge, next, hnext, -⟩ | ⟨hne, hp'⟩
    · have hin : Within shape s := by
        refine ⟨(List.getElem?_eq_some_iff.1 hnext).1, fun hpillar => ?_⟩
        rw [hedge] at hpillar
        cases hpillar
      refine ⟨ht.within hpos hin, rfl, fun hpillar => ?_⟩
      rw [hedge] at hpillar
      cases hpillar
    · have hpillar : s.position = .pillar := by
        cases hcase : s.position <;> simp_all
      have hin := h.within_pillar hs hd hshape hpillar
      refine ⟨ht.within hpos hin, rfl, fun _ => ?_⟩
      rw [ht.same_point hpillar (Nat.lt_of_succ_lt hin.before_end), hhere, hp,
        ← htp, hp']

/-- **A prepared snap rests on the shape of its road**, which is in its own direction. -/
theorem Found.rests [OrderedScalar K] (h : Found g snaps) (hapart : PillarsApart g snaps)
    {i : Nat} {s s' : Snap K} {edge : EdgeId} (hs : snaps[i]? = some s)
    (hfiled : Filed g edge s s') (hd : s'.closest = some d) (hshape : d.shape g = .ok shape) :
    RestsOn shape s' ∧ Snap.runsBackwards g d = .ok false := by
  obtain ⟨turned, hturned, hcases⟩ := hfiled.prepared
  obtain ⟨hclosest, d₀, hd₀, -⟩ := Prepared.exists_closest hturned hcases hd
  obtain ⟨shape₀, hshape₀⟩ := (h.onRoads i s hs d₀ hd₀).exists_shape
  obtain ⟨e, shape', ht⟩ := normalized_turned hturned hd₀ hshape₀
  obtain rfl : e = d := Option.some.inj (ht.closest.symm.trans hclosest)
  obtain rfl : shape' = shape := Except.ok.inj (ht.shape_eq.symm.trans hshape)
  have hposition := hfiled.prepared.position_eq
  have hpos : s.position ≠ .tower := hposition ▸ hfiled.not_tower
  obtain ⟨hin, hindex, hpoint⟩ := h.prepared_within hs hpos hd₀ hshape₀ ht hcases
  refine ⟨⟨hfiled.not_tower, hfiled.exists_point, hin.before_end, fun hp => ?_⟩, ht.direction⟩
  have hpillar : s.position = .pillar := hposition.symm.trans hp
  obtain ⟨p, hp'⟩ := hfiled.exists_point
  have hget : shape'.get? turned.wayIndex = some p := (hpoint hpillar).symm.trans hp'
  refine ⟨hin.inner hp, p, hindex ▸ hget, hp', ?_⟩
  have hlt := (h.within_pillar hs hd₀ hshape₀ hpillar).before_end
  -- A pillar is at the same point of the road, from whichever end it is counted.
  rw [ht.same_point hpillar (Nat.lt_of_succ_lt hlt)] at hget
  exact hapart i s hs hpillar d₀ shape₀ p hd₀ hshape₀ hget

/-- Snaps in one direction of a road are turned alike. -/
theorem normalized_closest_eq {s s' t t' : Snap K} (hs : s.normalized g = .ok s')
    (ht : t.normalized g = .ok t') (h : s.closest = t.closest) : s'.closest = t'.closest := by
  rcases normalized_cases hs with ⟨rfl, hdir⟩ | ⟨d, -, -, hd, hback, -, -, rfl⟩
  · rcases normalized_cases ht with ⟨rfl, -⟩ | ⟨e, -, -, he, hback, -⟩
    · exact h
    · rw [hdir e (h.trans he)] at hback
      cases hback
  · rcases normalized_cases ht with ⟨rfl, hdir⟩ | ⟨e, -, -, he, -, -, -, rfl⟩
    · rw [hdir d (h.symm.trans hd)] at hback
      cases hback
    · obtain rfl : d = e := Option.some.inj (hd.symm.trans (h.trans he))
      rfl

/-- **Prepared snaps of one road** that begin at one node lie on it in one direction, if the snaps on
a loop agree about its direction. -/
theorem Prepared.closest_eq (hroads : OnRoads g snaps)
    (hloops : ∀ (i j : Nat) s t, snaps[i]? = some s → snaps[j]? = some t →
      ∀ d e, s.closest = some d → t.closest = some e → d.edge = e.edge → d.base = d.adj → d = e)
    {i j : Nat} {s s' t t' : Snap K} {e : DirectedEdge} (hs : snaps[i]? = some s)
    (ht : snaps[j]? = some t) (hps : Prepared g s s') (hpt : Prepared g t t')
    (hd : s'.closest = some d) (he : t'.closest = some e) (hedge : d.edge = e.edge)
    (hbase : d.base = e.base) : d = e := by
  refine ((hps.direction (hroads i s hs) hd).eq_or_reversed (hpt.direction (hroads j t ht) he)
    hedge).resolve_right fun hopposite => ?_
  -- Both directions begin at one node, so the road is a loop, and its snaps agree.
  have hloop : e.adj = e.base := by
    rw [← hbase, hopposite]
    rfl
  obtain ⟨turned, hturned, hcases⟩ := hps
  obtain ⟨turned', hturned', hcases'⟩ := hpt
  obtain ⟨hto, d₀, hd₀, hside⟩ := Prepared.exists_closest hturned hcases hd
  obtain ⟨hto', e₀, he₀, hside'⟩ := Prepared.exists_closest hturned' hcases' he
  have hsame : d₀ = e₀ := by
    refine hloops i j s t hs ht d₀ e₀ hd₀ he₀ ?_ ?_
    · rcases hside with rfl | rfl <;> rcases hside' with heq | heq <;> rw [heq] at hedge <;>
        exact hedge
    · rcases hside with rfl | rfl
      · rw [hopposite]
        exact hloop
      · have hends : d₀.reversed.base = d₀.reversed.adj := by
          rw [hopposite]
          exact hloop
        exact hends.symm
  have heq := normalized_closest_eq hturned hturned' (hd₀.trans (hsame ▸ he₀.symm))
  have hde : d = e := Option.some.inj (hto.symm.trans (heq.trans hto'))
  have hreverse := congrArg DirectedEdge.reverse (hde.symm.trans hopposite)
  simp [DirectedEdge.reversed] at hreverse

/-- **The snaps of a chain** all lie in its direction on its road, and in order behind the base
node. -/
theorem Found.inOrder [OrderedScalar K] (h : Found g snaps) (hapart : PillarsApart g snaps)
    {final : Array (Snap K)} {n : NodeId} {c : Chain K} {start last : Point K}
    {ss : List (Snap K)} (ht : Threads g snaps final n c shape start last ss) :
    InOrder shape (baseAnchor c.road start) ss ∧ (∀ s ∈ ss, s.closest = some c.road) ∧
      Snap.runsBackwards g c.road = .ok false := by
  obtain ⟨first, hfirst, hroad⟩ := ht.exists_first
  obtain ⟨j, t₀, ht₀, hft⟩ := ht.filed first hfirst
  -- The snaps of a chain have one base node, so they run in one direction.
  have hclosest : ∀ s ∈ ss, s.closest = some c.road := by
    intro s hs
    obtain ⟨i, s₀, hs₀, hfs⟩ := ht.filed s hs
    obtain ⟨own, hown, hbase⟩ := ht.same_base s hs
    obtain ⟨d, hd, hedge⟩ := hfs.exists_closest
    obtain rfl : own = d := Option.some.inj (hown.symm.trans hd)
    rw [hd, Prepared.closest_eq h.onRoads h.loops hs₀ ht₀ hfs.prepared hft.prepared hd hroad hedge
      hbase]
  refine ⟨⟨fun s hs => ?_, ?_, fun s hs => ?_⟩, hclosest, ?_⟩
  · obtain ⟨i, s₀, hs₀, hfs⟩ := ht.filed s hs
    exact (h.rests hapart hs₀ hfs (hclosest s hs) ht.shape_eq).1
  · obtain ⟨keyed, hkeyed⟩ := ht.sorted
    exact pairwise_notBehind hkeyed
  · obtain ⟨i, s₀, hs₀, hfs⟩ := ht.filed s hs
    exact (h.rests hapart hs₀ hfs (hclosest s hs) ht.shape_eq).1.ahead_base c.road start
  · exact (h.rests hapart ht₀ hft hroad ht.shape_eq).2

/-! ## §3. Fixes along a parallel. -/

/-- A segment along a parallel keeps the latitude, and the foot has the longitude of the fix. -/
theorem footOn_onParallel (p : Point Exact) (a b c : ℝ) : Snap.footOn p
    (Exact.onParallel a b) (Exact.onParallel a c) false = .flat (.real a) p.lon := by
  have hlevel : ((Exact.real a - Exact.real a : Exact) == 0) = true := by simp
  unfold Snap.footOn Geo.crossingPoint Exact.onParallel Point.flat
  simp only [hlevel, ↓reduceIte, Bool.false_eq_true]

/-- The two fixes on a road along a parallel were found there. -/
theorem found_levelRoad (a : ℝ) (distance : Exact) (word : Nat) {s t : Snap Exact}
    (hs : s = atInner a ∨ s = between a) (ht : t = atInner a ∨ t = between a) :
    Found (levelRoad a distance word) #[s, t] := by
  have hshape : RoadGraph.onlyRoad.shape (levelRoad a distance word) = .ok (levelShape a) :=
    shape_onlyRoad _ _ _ _ _
  have hinner : (levelShape a).get? 1 = some (Exact.onParallel a 1) := rfl
  have hnext : (levelShape a).get? 2 = some (Exact.onParallel a 2) := rfl
  refine ⟨onRoads_levelRoad a distance word hs ht, fun i u hu p hp => ?_,
    fun i u hu _ d shape hd hd' => ?_, fun i j u v hu hv d e hd he _ _ => ?_⟩
  · obtain ⟨rfl | rfl, hclosest⟩ := closest_levelRoad a hs ht hu
    · refine ⟨_, located_pillar hclosest hshape hinner rfl, ?_⟩
      rw [point_measured]
      exact hp
    · refine ⟨_, located_edge hclosest hshape hinner hnext rfl, ?_⟩
      rw [point_measured]
      exact (congrArg some (footOn_onParallel _ a _ _)).trans hp
  · obtain ⟨hcases, hclosest⟩ := closest_levelRoad a hs ht hu
    obtain rfl := Option.some.inj (hclosest.symm.trans hd)
    obtain rfl := Except.ok.inj (hshape.symm.trans hd')
    have hlong : 2 < (levelShape a).length := Nat.lt_succ_of_lt (Nat.lt_succ_self 2)
    rcases hcases with rfl | rfl <;> exact ⟨Nat.one_pos, hlong⟩
  · have hd := Option.some.inj ((closest_levelRoad a hs ht hu).2.symm.trans hd)
    exact hd.symm.trans (Option.some.inj ((closest_levelRoad a hs ht hv).2.symm.trans he))

/-! ## §4. A road over a point of infinite latitude. -/

section

open Exact (onParallel)
open RoadGraph (onlyRoad oneRoad)

/-- The point of infinite latitude on the first meridian. -/
noncomputable def farNorth : Point Exact := .flat (.infinite false) (.real 0)

/-- The place of which neither coordinate is a number. -/
noncomputable def nowhere : Point Exact := .flat .nan .nan

/-- From the equator over the point of infinite latitude to the first degree. -/
noncomputable def farNorthShape : Polyline Exact :=
  ⟨(onParallel 0 0 :: [farNorth]) ++ [onParallel 1 0], false⟩

/-- **A road with an inner point of infinite latitude.** -/
noncomputable def farNorthRoad : RoadGraph Exact :=
  oneRoad (onParallel 0 0) (onParallel 1 0) [farNorth] 0 0

/-- A fix at the inner point. -/
noncomputable def atFarNorth : Snap Exact :=
  { Snap.onEdge farNorth onlyRoad 1 .pillar with point := some farNorth }

/-- A fix on the segment behind it, on which nothing has a foot. -/
noncomputable def behindFarNorth : Snap Exact :=
  { Snap.onEdge (onParallel 0 1) onlyRoad 1 .edge with point := some nowhere }

/-- The fix behind the inner point is given first. -/
noncomputable def farNorthSnaps : Array (Snap Exact) := #[behindFarNorth, atFarNorth]

/-- The chain of the road through both fixes, in the order in which they are given. -/
noncomputable def farNorthChain : Chain Exact :=
  chainOf (uncut farNorthRoad) onlyRoad farNorthShape (onParallel 0 0) (onParallel 1 0)
    [behindFarNorth, atFarNorth]

theorem cases_farNorth {i : Nat} {s : Snap Exact} (hs : farNorthSnaps[i]? = some s) :
    s = behindFarNorth ∨ s = atFarNorth := by
  have hmem : s ∈ [behindFarNorth, atFarNorth] :=
    List.mem_of_getElem? (by rwa [farNorthSnaps, List.getElem?_toArray] at hs)
  simpa using hmem

theorem closest_farNorth (i : Nat) (s : Snap Exact) (hs : farNorthSnaps[i]? = some s) :
    s.closest = some onlyRoad := by
  rcases cases_farNorth hs with rfl | rfl <;> rfl

/-- No fix is at a distance from the inner point. -/
theorem along_farNorth {s : Snap Exact} (hs : s = behindFarNorth ∨ s = atFarNorth) :
    along farNorthShape s = some (1, .nan) := by
  rcases hs with rfl | rfl
  · exact congrArg some (Prod.ext rfl (Exact.planeNormalizedDistance_infinite _ _ _ _))
  · exact congrArg some (Prod.ext rfl (Exact.planeNormalizedDistance_infinite _ _ _ _))

theorem inPlace_farNorth {s : Snap Exact} (hs : s = behindFarNorth ∨ s = atFarNorth) :
    InPlace onlyRoad farNorthShape s := by
  refine ⟨?_, ?_, ?_, ⟨_, along_farNorth hs⟩⟩
  · rcases hs with rfl | rfl <;> exact ⟨_, rfl, .inl rfl⟩
  · rcases hs with rfl | rfl
    · simp [behindFarNorth, Snap.onEdge]
    · simp [atFarNorth, Snap.onEdge]
  · rcases hs with rfl | rfl <;> exact ⟨_, rfl⟩

/-- What is not a number is tied with itself, so the fixes stay in the order in which they are
given. -/
theorem notBehind_farNorth : NotBehind farNorthShape behindFarNorth atFarNorth := by
  refine ⟨_, _, along_farNorth (.inl rfl), along_farNorth (.inr rfl),
    atOrBefore_iff.2 (.inr ⟨rfl, ?_⟩)⟩
  exact (Exact.order_isLE_iff _ _).2 (.inr rfl)

theorem coincides_nowhere (p : Point Exact) : p.coincides nowhere = false := by
  refine Bool.eq_false_iff.2 fun h => ?_
  exact (Exact.isReal_of_coincides h).1.2.ne_nan rfl

theorem coincides_farNorth (p : Point Exact) : p.coincides farNorth = false := by
  refine Bool.eq_false_iff.2 fun h => ?_
  obtain ⟨x, hx⟩ := (Exact.isReal_of_coincides h).1.2
  cases hx

/-- **The road is cut at both fixes.** -/
theorem build_farNorth :
    ∃ o final, Overlay.build farNorthRoad farNorthSnaps = (.ok o, final) ∧
      Overlay.Spliced farNorthRoad o [farNorthChain] := by
  have hplace : ∀ s ∈ [behindFarNorth, atFarNorth], InPlace onlyRoad farNorthShape s :=
    fun s hs => inPlace_farNorth (by simpa using hs)
  obtain ⟨o, final, hbuild, hspliced, -⟩ := build_onlyRoad (onParallel 0 0) (onParallel 1 0)
    [farNorth] 0 0 [atFarNorth] hplace (List.pairwise_pair.2 notBehind_farNorth)
    (coincides_nowhere _)
  exact ⟨o, final, hbuild, hspliced⟩

/-- **The second piece is a point**, the one behind the inner point at which it should end. -/
theorem parts_farNorthChain : farNorthChain.points = [nowhere, farNorth] ∧
    ∃ part, farNorthChain.parts[1]? = some part ∧ part.shape.points = [nowhere] := by
  obtain ⟨hpoints, hpart⟩ := chainOf_pair (uncut farNorthRoad) onlyRoad farNorthShape
    (onParallel 0 0) (onParallel 1 0) (s := behindFarNorth) (t := atFarNorth) rfl rfl
    (coincides_nowhere _) (coincides_farNorth _)
  exact ⟨hpoints, _, hpart, rfl⟩

theorem nowhere_ne_farNorth : nowhere ≠ farNorth := by
  intro heq
  cases congrArg Point.lat heq

/-- Both fixes were found on the road. -/
theorem found_farNorth : Found farNorthRoad farNorthSnaps := by
  have hshape : onlyRoad.shape farNorthRoad = .ok farNorthShape := shape_onlyRoad _ _ _ _ _
  have hinner : farNorthShape.get? 1 = some farNorth := rfl
  have hnext : farNorthShape.get? 2 = some (onParallel 1 0) := rfl
  have hfoot : Snap.footOn (onParallel 0 1) farNorth (onParallel 1 0) false = nowhere := by
    unfold Snap.footOn farNorth onParallel Point.flat
    rw [Exact.crossingPoint_infinite]
    rfl
  refine ⟨onRoads_onlyRoad _ _ _ _ _ closest_farNorth, fun i s hs p hp => ?_,
    fun i s hs _ d shape hd hd' => ?_, fun i j s t hs ht d e hd he _ _ => ?_⟩
  · rcases cases_farNorth hs with rfl | rfl
    · refine ⟨_, located_edge rfl hshape hinner hnext rfl, ?_⟩
      rw [point_measured]
      exact (congrArg some hfoot).trans hp
    · refine ⟨_, located_pillar rfl hshape hinner rfl, ?_⟩
      rw [point_measured]
      exact hp
  · obtain rfl := Option.some.inj ((closest_farNorth i s hs).symm.trans hd)
    obtain rfl := Except.ok.inj (hshape.symm.trans hd')
    rcases cases_farNorth hs with rfl | rfl <;> exact ⟨Nat.one_pos, Nat.lt_succ_self 2⟩
  · obtain rfl := Option.some.inj ((closest_farNorth i s hs).symm.trans hd)
    exact Option.some.inj ((closest_farNorth j t ht).symm.trans he)

end

end Splicing

end RoadSplice

/-
  RoadSplice.Proofs.Overlay.Loops — computed snaps on a road that has no direction of its own.

  The chain of a road runs in the direction of the first snap there.  A loop with equal ends may have
  no direction of its own; then snaps that name it from different sides are not turned alike, and
  the way index of a snap is read on the shape of the first one.  Where this leads to the same point
  all the same, the parts of a chain end at the points of its snaps.

  A snap may also name an ordinary road as a loop.  Its road is cut, but only the node that the snap
  names learns of it.
-/
import RoadSplice.Proofs.Overlay.Computed
import RoadSplice.Proofs.Overlay.Found
import RoadSplice.Proofs.Overlay.Sides

namespace RoadSplice.Splicing

variable {K : Type} [Scalar K] {g : RoadGraph K} {snaps final : Array (Snap K)} {c : Chain K}
  {d : DirectedEdge} {shape : Polyline K}

/-! ## §1. The first snap on a road. -/

omit [Scalar K] in
/-- **No snap comes before on a road**, towers apart. -/
def FirstOn (snaps : Array (Snap K)) (edge : EdgeId) (j : Nat) : Prop :=
  ∀ i < j, ∀ s, snaps[i]? = some s → s.position ≠ .tower →
    ∀ d, s.closest = some d → d.edge ≠ edge

/-- **A chain runs in the direction of the first snap** on its road. -/
theorem BuildSteps.exists_first {o : Overlay K} {groups : Groups} {prepared spliced : Splicing K}
    {cs : List (Chain K)} (h : BuildSteps g snaps final o groups prepared spliced cs) (hc : c ∈ cs) :
    ∃ (j : Nat) (t₀ t : Snap K), snaps[j]? = some t₀ ∧ Filed g c.road.edge t₀ t ∧
      t.closest = some c.road ∧ FirstOn snaps c.road.edge j := by
  obtain ⟨is, j, t, hmem, hhead, hread, hroad⟩ := h.roads.first c hc
  obtain ⟨-, t₀, t', ht₀, ht', hfiled⟩ :=
    h.grouped.filed _ is hmem j (List.mem_of_mem_head? hhead)
  obtain rfl : t = t' := Option.some.inj (hread.symm.trans ht')
  refine ⟨j, t₀, t, ht₀, hfiled, hroad, fun k hk s hs hpos d hd hedge => ?_⟩
  -- An earlier snap on the road would be in the same group, and before the first one there.
  obtain ⟨e, is', hmem', hk'⟩ :=
    h.grouped.complete k s (Array.getElem?_eq_some_iff.1 hs).1 hs hpos
  obtain ⟨-, s₀, s', hs₀, -, hfs⟩ := h.grouped.filed e is' hmem' k hk'
  obtain rfl : s = s₀ := Option.some.inj (hs.symm.trans hs₀)
  obtain ⟨turned, hturned, hcases⟩ := hfs.prepared
  obtain ⟨d', hd', hedge'⟩ := hfs.exists_closest
  obtain ⟨-, d₀, hd₀, hside⟩ := Prepared.exists_closest hturned hcases hd'
  obtain rfl : d = d₀ := Option.some.inj (hd.symm.trans hd₀)
  have hsame : e = c.road.edge := by
    rw [← hedge', ← hedge]
    obtain rfl | rfl := hside <;> rfl
  obtain rfl : is' = is :=
    congrArg Prod.snd (List.inj_on_of_nodup_map h.grouped.keys hmem' hmem hsame)
  obtain ⟨rest, rfl⟩ := List.head?_eq_some_iff.1 hhead
  obtain rfl | hrest := List.mem_cons.1 hk'
  · exact Nat.lt_irrefl _ hk
  · exact Nat.lt_asymm hk (List.rel_of_pairwise_cons (h.grouped.increasing _ _ hmem) hrest)

/-! ## §2. Snaps on loops. -/

/-- **Loops on which way indexes mean the same**: where a loop has no direction of its own and the
first snap there names it from the other side, a snap at an inner point lies at the point that its
way index names on that side too. -/
def LoopsInPlace (g : RoadGraph K) (snaps : Array (Snap K)) : Prop :=
  ∀ (i j : Nat) s t d shape, snaps[i]? = some s → snaps[j]? = some t → s.position = .pillar →
    t.position ≠ .tower → s.closest = some d → t.closest = some d.reversed →
    FirstOn snaps d.edge j → d.base = d.adj → Snap.runsBackwards g d = .ok false →
    Snap.runsBackwards g d.reversed = .ok false → d.shape g = .ok shape →
    shape.reverse.get? s.wayIndex = shape.get? s.wayIndex

/-- Snaps that name the only road lie on no loop. -/
theorem loopsInPlace_onlyRoad {snaps : Array (Snap K)}
    (h : ∀ (i : Nat) s, snaps[i]? = some s → s.closest = some RoadGraph.onlyRoad) :
    LoopsInPlace g snaps := by
  intro i j s t d shape hs _ _ _ hd _ _ hloop
  obtain rfl : RoadGraph.onlyRoad = d := Option.some.inj ((h i s hs).symm.trans hd)
  exact absurd hloop Nat.zero_ne_one

/-- A snap with a point is only turned. -/
theorem Prepared.normalized_of_computed {s s' : Snap K} (h : Prepared g s s')
    (hs : s.Computed g) : s.normalized g = .ok s' := by
  obtain ⟨turned, hturned, ⟨hnone, -⟩ | ⟨-, rfl⟩⟩ := h
  · obtain ⟨p, hp⟩ := hs.exists_point
    rw [(Snap.point_normalized hturned).1, hp] at hnone
    cases hnone
  · exact hturned

/-- **A turned snap at an inner point** lies at the point that its way index names on its road. -/
theorem normalized_inner [OrderedScalar K] {s s' : Snap K} (hs : s.Computed g)
    (hpos : s.position = .pillar) (h : s.normalized g = .ok s') :
    ∃ d₀ shape₀ d shape p, s.closest = some d₀ ∧ d₀.shape g = .ok shape₀ ∧
      shape₀.get? s.wayIndex = some p ∧ s'.closest = some d ∧ d.shape g = .ok shape ∧
      Snap.runsBackwards g d = .ok false ∧ shape.get? s'.wayIndex = some p ∧
      s'.point = some p := by
  obtain ⟨t, hloc, htp⟩ := hs.located
  obtain ⟨d₀, shape₀, p, hd₀, hshape₀, hp, -, -, -, hpoint⟩ := located_inv hloc
  have hthere : t.point = some p := by
    obtain ⟨hedge, -⟩ | ⟨-, hthere⟩ := hpoint
    · rw [hpos] at hedge
      cases hedge
    · exact hthere
  obtain ⟨d, shape, hturned⟩ := normalized_turned h hd₀ hshape₀
  have hlt := (List.getElem?_eq_some_iff.1 hp).1
  exact ⟨d₀, shape₀, d, shape, p, hd₀, hshape₀, hp, hturned.closest, hturned.shape_eq,
    hturned.direction, (hturned.same_point hpos hlt).trans hp,
    hturned.point.trans (htp.trans hthere)⟩

/-- A snap is turned only if its road runs backwards. -/
theorem normalized_eq_self {s s' : Snap K} (h : s.normalized g = .ok s') (hd : s'.closest = some d)
    (hback : Snap.runsBackwards g d.reversed = .ok false) : s' = s := by
  obtain ⟨rfl, -⟩ | ⟨e, _, _, -, htrue, -, -, rfl⟩ := normalized_cases h
  · rfl
  · obtain rfl : e.reversed = d := Option.some.inj hd
    rw [DirectedEdge.reversed_reversed, htrue] at hback
    cases hback

/-- **Computed snaps can be drawn** along the chain of their road. -/
theorem drawn_of_computed [OrderedScalar K]
    (hcomputed : ∀ (i : Nat) s, snaps[i]? = some s → s.Computed g) (hloops : LoopsInPlace g snaps)
    (hapart : PillarsApart g snaps) {n : NodeId} {start last : Point K} {ss : List (Snap K)}
    (ht : Threads g snaps final n c shape start last ss) {j : Nat} {t₀ t : Snap K}
    (ht₀ : snaps[j]? = some t₀) (hfiled : Filed g c.road.edge t₀ t)
    (hroad : t.closest = some c.road) (hfirst : FirstOn snaps c.road.edge j) :
    Drawn shape (baseAnchor c.road start) ss := by
  have hlies : ∀ s ∈ ss, LiesOn shape s := by
    intro s hs
    obtain ⟨i, s₀, hs₀, hfs⟩ := ht.filed s hs
    refine ⟨hfs.exists_point, fun hpillar => ?_⟩
    have hturned := hfs.prepared.normalized_of_computed (hcomputed i s₀ hs₀)
    have hpos : s₀.position = .pillar := hfs.prepared.position_eq.symm.trans hpillar
    obtain ⟨d₀, shape₀, d, shape', p, hd₀, hshape₀, hp₀, hd, hshape', hdir, hp, hpoint⟩ :=
      normalized_inner (hcomputed i s₀ hs₀) hpos hturned
    refine ⟨p, ?_, hpoint, hapart i s₀ hs₀ hpos d₀ shape₀ p hd₀ hshape₀ hp₀⟩
    obtain ⟨d', hd', hedge⟩ := hfs.exists_closest
    obtain rfl : d = d' := Option.some.inj (hd.symm.trans hd')
    have hdirection : ∀ {k : Nat} {u u' : Snap K} {e : DirectedEdge}, snaps[k]? = some u →
        Prepared g u u' → u'.closest = some e → g.HasDirection e := fun hu hprep he =>
      hprep.direction (fun e he => by
        obtain ⟨e', he', hdir⟩ := (hcomputed _ _ hu).closest
        exact Option.some.inj (he.symm.trans he') ▸ hdir) he
    obtain rfl | rfl := (hdirection hs₀ hfs.prepared hd).eq_or_reversed
      (hdirection ht₀ hfiled.prepared hroad) hedge
    · obtain rfl : shape' = shape := Except.ok.inj (hshape'.symm.trans ht.shape_eq)
      exact hp
    · -- The snap lies on the other side of the chain, so the road is a loop that is never turned.
      obtain ⟨own, hown, hbase⟩ := ht.same_base s hs
      obtain rfl : own = c.road.reversed := Option.some.inj (hown.symm.trans hd)
      have hturned₀ := hfiled.prepared.normalized_of_computed (hcomputed j t₀ ht₀)
      obtain rfl : t = t₀ := normalized_eq_self hturned₀ hroad hdir
      have hforwards : Snap.runsBackwards g c.road = .ok false := by
        obtain ⟨e, _, he⟩ := normalized_turned hturned₀ hroad ht.shape_eq
        obtain rfl : c.road = e := Option.some.inj (hroad.symm.trans he.closest)
        exact he.direction
      obtain rfl : s = s₀ := normalized_eq_self hturned hd
        ((DirectedEdge.reversed_reversed c.road).symm ▸ hforwards)
      obtain rfl : shape.reverse = shape' :=
        Except.ok.inj ((DirectedEdge.shape_reversed ht.shape_eq).symm.trans hshape')
      have hsame := hloops i j s t _ _ hs₀ ht₀ hpillar hfiled.not_tower hd
        ((DirectedEdge.reversed_reversed c.road).symm ▸ hroad) hfirst hbase hdir
        ((DirectedEdge.reversed_reversed c.road).symm ▸ hforwards) hshape'
      rw [Polyline.reverse_reverse] at hsame
      exact hsame.trans hp
  refine ⟨hlies, ?_, fun s hs => (hlies s hs).reaches_base c.road ht.start_eq⟩
  obtain ⟨keyed, hkeyed⟩ := ht.sorted
  exact pairwise_notBehind hkeyed

/-! ## §3. A level loop, named from both sides. -/

open Exact (onParallel)

/-- A loop on the equator, with an inner point on either side of its node. -/
noncomputable def levelLoop : RoadGraph Exact :=
  RoadGraph.oneLoop (onParallel 0 0) [onParallel 0 1, onParallel 0 (-1)] 0

/-- Its shape. -/
noncomputable def loopShape : Polyline Exact :=
  ⟨(onParallel 0 0 :: [onParallel 0 1, onParallel 0 (-1)]) ++ [onParallel 0 0], false⟩

/-- A fix at the first inner point of the loop. -/
noncomputable def onLoop : Snap Exact :=
  { Snap.onEdge (onParallel 0 1) RoadGraph.onlyLoop 1 .pillar with point := some (onParallel 0 1) }

/-- A fix at the first inner point of the loop as it runs the other way. -/
noncomputable def onLoopBack : Snap Exact :=
  { Snap.onEdge (onParallel 0 (-1)) RoadGraph.onlyLoop.reversed 1 .pillar with
    point := some (onParallel 0 (-1)) }

theorem shape_levelLoop : RoadGraph.onlyLoop.shape levelLoop = .ok loopShape :=
  RoadGraph.shape_onlyLoop _ _ _

/-- Neither way round is the own direction of the loop. -/
theorem unturned_levelLoop : Unturned levelLoop RoadGraph.onlyLoop := by
  have hlevel : ∀ x y : ℝ, (decide ((onParallel 0 x).lat < (onParallel 0 y).lat)) = false :=
    fun x y => by simp [onParallel, Point.flat]
  constructor
  · unfold Snap.runsBackwards
    rw [shape_levelLoop]
    exact congrArg Except.ok (hlevel (-1) 1)
  · intro _
    unfold Snap.runsBackwards
    rw [DirectedEdge.shape_reversed shape_levelLoop]
    exact congrArg Except.ok (hlevel 1 (-1))

theorem along_onLoop : along loopShape onLoop = some (1, .real 0) := by
  show some (1, Geo.planeNormalizedDistance (onParallel 0 1).lat (onParallel 0 1).lon
    (onParallel 0 1).lat (onParallel 0 1).lon) = _
  rw [Exact.planeNormalizedDistance_onParallel]
  simp

theorem along_onLoopBack : along loopShape onLoopBack =
    some (1, .real ((Real.cos (0 * (Real.pi / 180)) * ((-1 - 1) * (Real.pi / 180))) ^ 2)) := by
  show some (1, Geo.planeNormalizedDistance (onParallel 0 1).lat (onParallel 0 1).lon
    (onParallel 0 (-1)).lat (onParallel 0 (-1)).lon) = _
  rw [Exact.planeNormalizedDistance_onParallel]

/-- On the loop as it is stored, the second fix is farther from the point of its way index. -/
theorem notBehind_levelLoop : NotBehind loopShape onLoop onLoopBack := by
  refine ⟨_, _, along_onLoop, along_onLoopBack, atOrBefore_iff.2 (.inr ⟨rfl, ?_⟩)⟩
  rw [Exact.order_isLE_iff, Exact.real_le_real]
  exact .inl (sq_nonneg _)

/-- The loop is cut at both fixes. -/
theorem build_levelLoop :
    ∃ o final, Overlay.build levelLoop #[onLoop, onLoopBack] = (.ok o, final) ∧
      Overlay.Spliced levelLoop o [chainOf (uncut levelLoop) RoadGraph.onlyLoop loopShape
        (onParallel 0 0) (onParallel 0 0) [onLoop, onLoopBack]] := by
  have hplace : ∀ s ∈ [onLoop, onLoopBack], InPlace RoadGraph.onlyLoop loopShape s := by
    intro s hs
    obtain rfl | hs := List.mem_cons.1 hs
    · exact ⟨⟨_, rfl, .inl rfl⟩, by simp [onLoop, Snap.onEdge], ⟨_, rfl⟩, ⟨_, along_onLoop⟩⟩
    · obtain rfl := List.mem_singleton.1 hs
      exact ⟨⟨_, rfl, .inr ⟨rfl, rfl⟩⟩, by simp [onLoopBack, Snap.onEdge], ⟨_, rfl⟩,
        ⟨_, along_onLoopBack⟩⟩
  have hapart : (onParallel 0 0).coincides (onParallel 0 1) = false :=
    Exact.coincides_onParallel 0 (by norm_num)
  have hstops : stopsOf (uncut levelLoop) RoadGraph.onlyLoop loopShape (onParallel 0 0)
      [onLoop, onLoopBack] ≠ [] := by
    unfold stopsOf stopsFrom
    rw [if_neg (by exact Bool.eq_false_iff.1 hapart)]
    exact List.cons_ne_nil _ _
  obtain ⟨o, final, hbuild, hspliced, -⟩ := build_road (RoadGraph.built_oneLoop _ _ _).wellFormed
    (RoadGraph.hasDirection_onlyLoop _ _ _) unturned_levelLoop shape_levelLoop rfl rfl
    (Nat.le_of_ble_eq_true rfl) rfl rfl hplace (List.pairwise_pair.2 notBehind_levelLoop) hstops
  exact ⟨o, final, hbuild, hspliced⟩

/-- Both fixes are where their way indexes say, each on the loop as it names it. -/
theorem cases_levelLoop {i : Nat} {s : Snap Exact}
    (hs : (#[onLoop, onLoopBack] : Array (Snap Exact))[i]? = some s) :
    ∃ d shape p, s.closest = some d ∧ levelLoop.HasDirection d ∧ d.shape levelLoop = .ok shape ∧
      s.position = .pillar ∧ shape.get? s.wayIndex = some p ∧ s.point = some p ∧
      ∃ x, p = onParallel 0 x := by
  have hroad : levelLoop.HasDirection RoadGraph.onlyLoop := RoadGraph.hasDirection_onlyLoop _ _ _
  have hmem : s ∈ [onLoop, onLoopBack] :=
    List.mem_of_getElem? (by rwa [List.getElem?_toArray] at hs)
  obtain rfl | hmem := List.mem_cons.1 hmem
  · exact ⟨_, _, _, rfl, hroad, shape_levelLoop, rfl, rfl, rfl, 1, rfl⟩
  · obtain rfl := List.mem_singleton.1 hmem
    exact ⟨_, _, _, rfl, hroad.reversed, DirectedEdge.shape_reversed shape_levelLoop, rfl, rfl, rfl,
      -1, rfl⟩

theorem computed_levelLoop (i : Nat) (s : Snap Exact)
    (hs : (#[onLoop, onLoopBack] : Array (Snap Exact))[i]? = some s) : s.Computed levelLoop := by
  obtain ⟨d, shape, p, hd, hroad, hshape, hpos, hp, hpoint, -⟩ := cases_levelLoop hs
  refine ⟨⟨d, hd, hroad⟩, _, located_pillar hd hshape hp hpos, ?_⟩
  rw [point_measured]
  exact hpoint

theorem pillarsApart_levelLoop : PillarsApart levelLoop #[onLoop, onLoopBack] := by
  intro i s hs _ d' shape' p' hd' hshape' hp'
  obtain ⟨d, shape, p, hd, -, hshape, -, hp, -, x, rfl⟩ := cases_levelLoop hs
  obtain rfl := Option.some.inj (hd.symm.trans hd')
  obtain rfl := Except.ok.inj (hshape.symm.trans hshape')
  obtain rfl := Option.some.inj (hp.symm.trans hp')
  exact Exact.separates_of_cos_ne (by simp) _

/-! ## §4. A road that is named as a loop. -/

/-- The road under a wrong name, by which it leads back to the node where it begins. -/
def onlyRoadBack : DirectedEdge := ⟨0, 0, 0, false⟩

/-- A fix on the road under that name. -/
noncomputable def misnamed : Snap Exact := { atInner 0 with closest := some onlyRoadBack }

theorem shape_onlyRoadBack (word : Nat) : onlyRoadBack.shape (cutRoad word) = .ok (levelShape 0) :=
  shape_onlyRoad _ _ _ _ _

/-- The road is level, so neither way round is its own direction. -/
theorem unturned_onlyRoadBack (word : Nat) : Unturned (cutRoad word) onlyRoadBack := by
  have hlevel : ∀ x y : ℝ, (decide ((onParallel 0 x).lat < (onParallel 0 y).lat)) = false :=
    fun x y => by simp [onParallel, Point.flat]
  constructor
  · unfold Snap.runsBackwards
    rw [shape_onlyRoadBack]
    exact congrArg Except.ok (hlevel 2 1)
  · intro _
    unfold Snap.runsBackwards
    rw [DirectedEdge.shape_reversed (shape_onlyRoadBack word)]
    exact congrArg Except.ok (hlevel 1 2)

theorem inPlace_misnamed : InPlace onlyRoadBack (levelShape 0) misnamed :=
  ⟨⟨_, rfl, .inl rfl⟩, by simp [misnamed, atInner, Snap.onEdge], ⟨_, rfl⟩, ⟨_, along_atInner 0⟩⟩

/-- **The road is cut under the wrong name.** -/
theorem build_misnamed (word : Nat) :
    ∃ o final c, Overlay.build (cutRoad word) #[misnamed] = (.ok o, final) ∧
      Overlay.Fastened (cutRoad word) o [c] ∧ c.road = onlyRoadBack ∧ o.nodeCount ≤ 2 := by
  have hnodes : (cutRoad word).nodeCount = 2 := RoadGraph.nodeCount_oneRoad _ _ _ _ _
  have hlast : (levelShape 0).last? = some (onParallel 0 3) := rfl
  have hapart : (onParallel 0 0).coincides (onParallel 0 1) = false :=
    Exact.coincides_onParallel 0 (by norm_num)
  have hstops : stopsOf (uncut (cutRoad word)) onlyRoadBack (levelShape 0) (onParallel 0 0)
      [misnamed] ≠ [] := by
    unfold stopsOf stopsFrom
    rw [if_neg (by exact Bool.eq_false_iff.1 hapart)]
    exact List.cons_ne_nil _ _
  obtain ⟨o, final, hbuild, hfastened, -⟩ := build_named (unturned_onlyRoadBack word)
    (shape_onlyRoadBack word) rfl hlast (Nat.le_of_ble_eq_true rfl) rfl rfl
    (fun s hs => List.mem_singleton.1 hs ▸ inPlace_misnamed) (List.pairwise_singleton _ _) hstops
    (by rw [hnodes]; exact ⟨by decide, by decide⟩)
  exact ⟨o, final, _, hbuild, hfastened, rfl,
    (nodeCount_chainOf_le rfl hfastened.laid).trans (by decide)⟩

end RoadSplice.Splicing

/-
  RoadSplice.Proofs.Query.Walks — walks of a graph and walks of a query graph.

  Replacing each road of a walk by the row of pieces for which it stands gives a walk of the query
  graph, which weighs as much, turns included.  Conversely a walk between real nodes that never
  turns round at a virtual node is forced along each row that it enters, so it consists of whole
  rows; the row tells which road it stands for.
-/
import RoadSplice.Proofs.Overlay.OneRoad
import RoadSplice.Proofs.Query.Expand
import RoadSplice.Proofs.Weighting.Speed

namespace RoadSplice

open Overlay

/-! ## §1. Turns along a walk. -/

section

variable {K : Type} [Scalar K]

/-- The weight of the turns behind an edge. -/
def turnsFrom (w : Weighting K) : EdgeView K → List (EdgeView K) → K
  | _, [] => 0
  | v, v' :: vs => w.turnWeight ⟨v.edge, v.adj, v'.edge⟩ + turnsFrom w v' vs

/-- **The weight of all turns of a walk**, from each edge to the next one. -/
def walkTurns (w : Weighting K) : List (EdgeView K) → K
  | [] => 0
  | v :: vs => turnsFrom w v vs

/-- **A walk that never turns round at a virtual node.** -/
def NoTurnRound (o : Overlay K) (vs : List (EdgeView K)) : Prop :=
  vs.IsChain fun v v' => o.isVirtualNode v.adj = true → o.isUTurn v.edge v'.edge = false

/-- A walk that takes no loop against its stored direction. -/
def ForwardOnLoops (g : RoadGraph K) (vs : List (EdgeView K)) : Prop :=
  ∀ v ∈ vs, ∀ r, g.roads[v.road]? = some r → r.a = r.b → v.reverse = false

end

/-- **The distances of the pieces add up**: those for which a road stands to that of the road. -/
def DistancesAddUp (g : RoadGraph Exact) (o : Overlay Exact) : Prop :=
  ∀ d, g.Offers d → total (((QueryGraph.ofOverlay g o).expand (g.view d)).map (·.distance)) =
    (g.view d).distance

variable {g : RoadGraph Exact} {o : Overlay Exact} {cs : List (Chain Exact)}
  {w : SpeedWeighting Exact} {s t : NodeId} {d : DirectedEdge} {us vs : List (EdgeView Exact)}

/-- It is enough that the parts of each chain add up to its road. -/
theorem distancesAddUp_of_parts (h : Spliced g o cs) (hg : g.WellFormed)
    (hsum : ∀ c ∈ cs, total (c.parts.map (·.distance)) = (g.view c.road).distance) :
    DistancesAddUp g o := by
  intro d hd
  by_cases hcut : ∃ c ∈ cs, c.road.edge = d.edge
  · obtain ⟨c, hc, hedge⟩ := hcut
    obtain ⟨back, rfl⟩ : ∃ back, d = c.toward back := by
      rcases hd.1.eq_or_reversed (h.direction c hc) hedge.symm with rfl | rfl
      · exact ⟨false, rfl⟩
      · exact ⟨true, rfl⟩
    have hviews : (c.views g back).map (·.distance) = c.parts.map (·.distance) := by
      refine List.ext_getElem (by simp [Chain.views]) fun i hi hi' => ?_
      simp [Chain.views, Chain.view]
    have hroad : (g.view (c.toward back)).distance = (g.view c.road).distance := by
      cases back <;> rfl
    rw [h.expand_chain hg hc, hroad, ← hsum c hc, ← hviews]
    cases back with
    | false => rfl
    | true =>
      show total ((c.views g true).reverse.map (·.distance)) = _
      rw [List.map_reverse, Exact.total_reverse]
  · -- A road that is not cut stands for itself.
    rw [h.expand_uncut fun c hc heq => hcut ⟨c, hc, heq⟩]
    simp [total, Exact.add_zero]

/-- What weightings read of an edge besides its distance. -/
theorem QueryEdge.reads {v : EdgeView Exact} (hv : QueryEdge g cs v) :
    v.word = g.word v.road ∧ v.unfavored = false := by
  obtain ⟨c, -, j, part, back, -, rfl⟩ | ⟨d, -, -, rfl⟩ := hv <;> exact ⟨rfl, rfl⟩

/-- The last edge of a row ends where the row ends. -/
theorem Joined.adj_getLast {α : Type} {base adj : α → NodeId} {xs : List α}
    (h : Joined base adj s xs t) (hne : xs ≠ []) : adj (xs.getLast hne) = t := by
  induction xs generalizing s with
  | nil => exact absurd rfl hne
  | cons x xs ih =>
    cases xs with
    | nil => exact h.2
    | cons y ys =>
      rw [List.getLast_cons_cons]
      exact ih h.2 (List.cons_ne_nil y ys)

/-- Where a row of edges ends is known from the row. -/
theorem Joined.unique {α : Type} {base adj : α → NodeId} {t' : NodeId} {xs : List α}
    (h : Joined base adj s xs t) (h' : Joined base adj s xs t') : t = t' := by
  induction xs generalizing s with
  | nil => exact h.symm.trans h'
  | cons x xs ih => exact ih h.2 h'.2

namespace Overlay.Spliced

/-! ## §2. From the graph to the query graph. -/

/-- A row weighs as much as the road. -/
theorem weight_runs (hsum : total (vs.map (·.distance)) = (g.view d).distance)
    (hruns : Runs g o cs d vs) :
    walkWeight (QueryGraph.wrap o w.toWeighting) vs = w.edgeWeight (g.view d) false := by
  refine w.total_edgeWeight hruns.ne rfl (fun u hu => ?_) hsum
  obtain ⟨hword, hmark⟩ := (hruns.edges u hu).reads
  obtain ⟨-, hroad, hreverse⟩ := hruns.roads u hu
  exact ⟨hword.trans (by rw [hroad]; rfl), hreverse, hmark⟩

/-- The roads of a walk. -/
theorem exists_direction (hg : g.WellFormed) (hus : IsWalk g s us t) {u : EdgeView Exact}
    (hu : u ∈ us) : ∃ d, g.Offers d ∧ u = g.view d := by
  obtain ⟨d, hd, -, rfl⟩ := (RoadGraph.mem_edges hg).1 (hus.2 u hu)
  exact ⟨d, hd, rfl⟩

theorem runs_of_offers (h : Spliced g o cs) (hg : g.WellFormed) (hd : g.Offers d) :
    Runs g o cs d ((QueryGraph.ofOverlay g o).expand (g.view d)) :=
  h.runs_expand hg hd.1 (.inl hd)

/-- **A walk of the graph becomes a walk of the query graph.** -/
theorem isWalk_expand (h : Spliced g o cs) (hg : g.WellFormed) (hus : IsWalk g s us t) :
    IsWalk (QueryGraph.ofOverlay g o) s (us.flatMap (QueryGraph.ofOverlay g o).expand) t := by
  refine ⟨?_, fun v hv => ?_⟩
  · have hdirections := fun u hu => exists_direction hg hus (u := u) hu
    replace hus := hus.1
    induction us generalizing s with
    | nil => exact hus
    | cons u us ih =>
      obtain ⟨d, hd, rfl⟩ := hdirections u (by simp)
      obtain ⟨rfl, hus⟩ := hus
      rw [List.flatMap_cons]
      exact (h.runs_of_offers hg hd).joined.append (ih (fun u hu => hdirections u (by simp [hu])) hus)
  · obtain ⟨u, hu, hv⟩ := List.mem_flatMap.1 hv
    obtain ⟨d, hd, rfl⟩ := exists_direction hg hus hu
    exact (h.mem_edges hg).2 ⟨(h.runs_of_offers hg hd).edges v hv, rfl⟩

/-- **The walks weigh the same.** -/
theorem walkWeight_expand (h : Spliced g o cs) (hg : g.WellFormed) (hsum : DistancesAddUp g o)
    (hus : ∀ u ∈ us, ∃ d, g.Offers d ∧ u = g.view d) :
    walkWeight (QueryGraph.wrap o w.toWeighting)
        (us.flatMap (QueryGraph.ofOverlay g o).expand) = walkWeight w.toWeighting us := by
  induction us with
  | nil => rfl
  | cons u us ih =>
    obtain ⟨d, hd, rfl⟩ := hus u (by simp)
    have hrest := ih fun u hu => hus u (by simp [hu])
    have hrow := weight_runs (w := w) (hsum d hd) (h.runs_of_offers hg hd)
    unfold walkWeight at hrest hrow ⊢
    rw [List.flatMap_cons, List.map_append, Exact.total_append, hrow, hrest]
    rfl

/-- **Passing virtual nodes is free.** -/
theorem turnsFrom_passes {v : EdgeView Exact} {ys rest : List (EdgeView Exact)}
    (hpass : (v :: ys).IsChain (Passes g o cs)) :
    turnsFrom (QueryGraph.wrap o w.toWeighting) v (ys ++ rest) =
      turnsFrom (QueryGraph.wrap o w.toWeighting) ((v :: ys).getLast (by simp)) rest := by
  induction ys generalizing v with
  | nil => rfl
  | cons y ys ih =>
    obtain ⟨hvy, hpass⟩ := List.isChain_cons_cons.1 hpass
    have hfree : (QueryGraph.wrap o w.toWeighting).turnWeight ⟨v.edge, v.adj, y.edge⟩ = 0 := by
      show QueryGraph.acrossOverlay o _ _ = 0
      simp [QueryGraph.acrossOverlay, hvy.virtual, hvy.no_turn]
    rw [List.cons_append, turnsFrom, hfree, ih hpass, Exact.zero_eq, Exact.zero_add,
      List.getLast_cons_cons]

/-- **At real nodes the roads decide**: the turns behind an edge of a road are those behind the
road. -/
theorem turnsFrom_expand (h : Spliced g o cs) (hg : g.WellFormed)
    (hus : ∀ u ∈ us, ∃ d, g.Offers d ∧ u = g.view d) {v : EdgeView Exact}
    (hroad : o.roadOf v.edge = d.edge) (hadj : v.adj = d.adj) (hreal : d.adj < g.nodeCount) :
    turnsFrom (QueryGraph.wrap o w.toWeighting) v
        (us.flatMap (QueryGraph.ofOverlay g o).expand) =
      turnsFrom w.toWeighting (g.view d) us := by
  -- Induction on the roads: turns inside a row are free, the one into the next row is that of the
  -- roads.
  induction us generalizing v d with
  | nil => rfl
  | cons u us ih =>
    obtain ⟨d', hd', rfl⟩ := hus u (by simp)
    have hruns := h.runs_of_offers hg hd'
    obtain ⟨y, ys, hrow⟩ := List.exists_cons_of_ne_nil hruns.ne
    rw [hrow] at hruns
    have hturn : (QueryGraph.wrap o w.toWeighting).turnWeight ⟨v.edge, v.adj, y.edge⟩ =
        w.toWeighting.turnWeight ⟨d.edge, d.adj, d'.edge⟩ := by
      show QueryGraph.acrossOverlay o _ _ = _
      have hnot : o.isVirtualNode d.adj = false := h.isVirtualNode_of_lt hreal
      simp [QueryGraph.acrossOverlay, hnot, QueryGraph.roadTurn, hroad, hadj,
        (hruns.roads y (by simp)).1]
    have hlast := (hruns.roads _ (List.getLast_mem hruns.ne)).1
    rw [List.flatMap_cons, hrow, List.cons_append, turnsFrom, hturn,
      turnsFrom_passes hruns.passes,
      ih (fun u hu => hus u (by simp [hu])) hlast (hruns.joined.adj_getLast hruns.ne)
        (hg.touches_lt hd'.1.touches.2)]
    rfl

/-- **The turns weigh the same.** -/
theorem walkTurns_expand (h : Spliced g o cs) (hg : g.WellFormed)
    (hus : ∀ u ∈ us, ∃ d, g.Offers d ∧ u = g.view d) :
    walkTurns (QueryGraph.wrap o w.toWeighting)
        (us.flatMap (QueryGraph.ofOverlay g o).expand) = walkTurns w.toWeighting us := by
  cases us with
  | nil => rfl
  | cons u us =>
    obtain ⟨d, hd, rfl⟩ := hus u (by simp)
    have hruns := h.runs_of_offers hg hd
    obtain ⟨y, ys, hrow⟩ := List.exists_cons_of_ne_nil hruns.ne
    rw [hrow] at hruns
    have hlast := (hruns.roads _ (List.getLast_mem hruns.ne)).1
    rw [List.flatMap_cons, hrow, List.cons_append, walkTurns, turnsFrom_passes hruns.passes]
    exact h.turnsFrom_expand hg (fun u hu => hus u (by simp [hu])) hlast
      (hruns.joined.adj_getLast hruns.ne) (hg.touches_lt hd.1.touches.2)

/-! ## §3. From the query graph to the graph. -/

/-- **A walk is forced along the row that it enters**, if it makes no turn round and ends at a real
node. -/
theorem forced {v : EdgeView Exact} {ys : List (EdgeView Exact)}
    (hpass : (v :: ys).IsChain (Passes g o cs)) (hjoined : Joined (·.base) (·.adj) v.adj vs t)
    (hvs : ∀ u ∈ vs, QueryEdge g cs u) (hturns : NoTurnRound o (v :: vs))
    (ht : o.isVirtualNode t = false) : ∃ rest, vs = ys ++ rest := by
  -- Induction along the row: a virtual node is left along it, or by turning round.
  induction ys generalizing v vs with
  | nil => exact ⟨vs, rfl⟩
  | cons y ys ih =>
    obtain ⟨hvy, hpass⟩ := List.isChain_cons_cons.1 hpass
    cases vs with
    | nil =>
      have hend : v.adj = t := hjoined
      simp [← hend, hvy.virtual] at ht
    | cons v' vs =>
      obtain ⟨hturn, hturns⟩ := List.isChain_cons_cons.1 hturns
      obtain ⟨hbase, hjoined⟩ := hjoined
      obtain rfl : v' = y := by
        refine (hvy.only v' (hvs v' (by simp)) hbase).resolve_right ?_
        simp [hturn hvy.virtual]
      obtain ⟨rest, rfl⟩ := ih hpass hjoined (fun u hu => hvs u (by simp [hu])) hturns
      exact ⟨rest, rfl⟩

/-- **An edge at a real node begins the row of a road.** -/
theorem exists_row (h : Spliced g o cs) (hg : g.WellFormed) {v : EdgeView Exact}
    (hv : QueryEdge g cs v) (hreal : o.isVirtualNode v.base = false) :
    ∃ d ys, g.HasDirection d ∧ (QueryGraph.ofOverlay g o).expand (g.view d) = v :: ys ∧
      Runs g o cs d (v :: ys) := by
  obtain ⟨c, hc, j, part, back, hpart, rfl⟩ | ⟨d, hd, huncut, rfl⟩ := hv
  · have hruns := h.runs_chain hg hc back
    obtain ⟨y, ys, hrow⟩ := List.exists_cons_of_ne_nil hruns.ne
    obtain ⟨j', part', hpart', rfl⟩ := Chain.mem_run.1 (hrow ▸ List.mem_cons_self)
    have hdir : g.HasDirection (c.toward back) := by
      cases back with
      | false => exact h.direction c hc
      | true => exact (h.direction c hc).reversed
    -- In each direction only one part of a chain begins at a real node.
    have hend : ∀ i p, c.parts[i]? = some p → o.isVirtualNode (c.view g i p back).base = false →
        i = if back then c.points.length else 0 := fun i p hp hbase => by
      obtain ⟨rfl, rfl, -⟩ | ⟨rfl, rfl, -⟩ | ⟨i', hi', heq, -⟩ := h.base_cases hc hp back
      · rfl
      · rfl
      · rw [heq, h.isVirtualNode_along hc hi'] at hbase
        simp at hbase
    have hfirst : o.isVirtualNode (c.view g j' part' back).base = false := by
      have hbase : (c.view g j' part' back).base = (c.toward back).base := by
        have hjoined := hruns.joined
        rw [hrow] at hjoined
        exact hjoined.1
      rw [hbase]
      exact h.isVirtualNode_of_lt (hg.touches_lt hdir.touches.1)
    obtain rfl : j = j' := (hend j part hpart hreal).trans (hend j' part' hpart' hfirst).symm
    obtain rfl : part = part' := by simpa using hpart.symm.trans hpart'
    exact ⟨c.toward back, ys, hdir, (h.expand_chain hg hc back).trans hrow, hrow ▸ hruns⟩
  · have hruns := h.runs_of_offers hg hd
    rw [h.expand_uncut huncut] at hruns
    exact ⟨d, [], hd.1, h.expand_uncut huncut, hruns⟩

/-- **A walk between real nodes consists of whole rows**, if it makes no turn round. -/
theorem exists_directions (h : Spliced g o cs) (hg : g.WellFormed)
    (hjoined : Joined (·.base) (·.adj) s vs t) (hvs : ∀ v ∈ vs, QueryEdge g cs v)
    (hturns : NoTurnRound o vs) (hs : o.isVirtualNode s = false) (ht : o.isVirtualNode t = false) :
    ∃ ds : List DirectedEdge, Joined (·.base) (·.adj) s ds t ∧
      (∀ d ∈ ds, g.HasDirection d ∧
        Runs g o cs d ((QueryGraph.ofOverlay g o).expand (g.view d))) ∧
      vs = ds.flatMap fun d => (QueryGraph.ofOverlay g o).expand (g.view d) := by
  -- The induction is on the length: a row is taken off the front at once.
  induction hn : vs.length using Nat.strong_induction_on generalizing s vs with
  | _ n ih =>
    cases vs with
    | nil => exact ⟨[], hjoined, by simp, rfl⟩
    | cons v vs =>
      obtain ⟨rfl, hjoined⟩ := hjoined
      obtain ⟨d, ys, hd, hrow, hruns⟩ := h.exists_row hg (hvs v (by simp)) hs
      have hrest : ∀ u ∈ vs, QueryEdge g cs u := fun u hu => hvs u (by simp [hu])
      obtain ⟨rest, rfl⟩ := forced hruns.passes hjoined hrest hturns ht
      obtain ⟨m, hys, hjoined⟩ := hjoined.exists_of_append
      obtain rfl : m = d.adj := hys.unique hruns.joined.2
      obtain ⟨ds, hds, hall, rfl⟩ := ih rest.length (by simp [← hn]) hjoined
        (fun u hu => hrest u (by simp [hu]))
        (hturns.suffix ((List.suffix_append ys rest).trans (List.suffix_cons v _)))
        (h.isVirtualNode_of_lt (hg.touches_lt hd.touches.2)) rfl
      refine ⟨d :: ds, ⟨hruns.joined.1.symm, hds⟩, fun d' hd' => ?_, ?_⟩
      · obtain rfl | hd' := List.mem_cons.1 hd'
        · exact ⟨hd, hrow ▸ hruns⟩
        · exact hall d' hd'
      · rw [List.flatMap_cons, hrow]
        rfl

/-- **Different walks stand for different rows.** -/
theorem expand_injective (h : Spliced g o cs) (hg : g.WellFormed)
    {us' : List (EdgeView Exact)} (hus : ∀ u ∈ us, ∃ d, g.Offers d ∧ u = g.view d)
    (hus' : ∀ u ∈ us', ∃ d, g.Offers d ∧ u = g.view d)
    (heq : us.flatMap (QueryGraph.ofOverlay g o).expand =
      us'.flatMap (QueryGraph.ofOverlay g o).expand) : us = us' := by
  have hcons : ∀ u (rest : List (EdgeView Exact)), (∃ d, g.Offers d ∧ u = g.view d) →
      (QueryGraph.ofOverlay g o).expand u ++ rest ≠ [] := by
    rintro _ rest ⟨d, hd, rfl⟩ hnil
    exact (h.runs_of_offers hg hd).ne (List.append_eq_nil_iff.1 hnil).1
  induction us generalizing us' with
  | nil =>
    cases us' with
    | nil => rfl
    | cons u' us' =>
      rw [List.flatMap_cons] at heq
      exact absurd heq.symm (hcons u' _ (hus' u' (by simp)))
  | cons u us ih =>
    cases us' with
    | nil =>
      rw [List.flatMap_cons] at heq
      exact absurd heq (hcons u _ (hus u (by simp)))
    | cons u' us' =>
      obtain ⟨d, hd, rfl⟩ := hus u (by simp)
      obtain ⟨d', hd', rfl⟩ := hus' u' (by simp)
      have hruns := h.runs_of_offers hg hd
      have hruns' := h.runs_of_offers hg hd'
      obtain ⟨y, ys, hrow⟩ := List.exists_cons_of_ne_nil hruns.ne
      obtain ⟨y', ys', hrow'⟩ := List.exists_cons_of_ne_nil hruns'.ne
      have hy : y = y' := by
        rw [List.flatMap_cons, List.flatMap_cons, hrow, hrow'] at heq
        exact (List.cons.inj heq).1
      -- The first edge of a row tells the road and its direction.
      obtain ⟨-, hroad, hreverse⟩ := hruns.roads y (by simp [hrow])
      obtain ⟨-, hroad', hreverse'⟩ := hruns'.roads y (by simp [hrow', hy])
      obtain rfl : d = d' :=
        hd.1.eq_of_reverse hd'.1 (hroad.symm.trans hroad') (hreverse.symm.trans hreverse')
      rw [List.flatMap_cons, List.flatMap_cons, List.append_cancel_left_eq] at heq
      rw [ih (fun u hu => hus u (by simp [hu])) (fun u hu => hus' u (by simp [hu])) heq]

/-- **Exactly one walk of the graph** becomes a given walk. -/
theorem existsUnique_isWalk (h : Spliced g o cs) (hg : g.WellFormed)
    (hvs : IsWalk (QueryGraph.ofOverlay g o) s vs t) (hs : s < g.nodeCount) (ht : t < g.nodeCount)
    (hturns : NoTurnRound o vs) (hloops : ForwardOnLoops g vs) :
    ∃! us, IsWalk g s us t ∧ us.flatMap (QueryGraph.ofOverlay g o).expand = vs := by
  obtain ⟨ds, hds, hall, rfl⟩ := h.exists_directions hg hvs.1
    (fun v hv => ((h.mem_edges hg).1 (hvs.2 v hv)).1) hturns (h.isVirtualNode_of_lt hs)
    (h.isVirtualNode_of_lt ht)
  -- The walk runs no loop backwards, so the graph offers every direction that it takes.
  have hoffers : ∀ d ∈ ds, g.Offers d := fun d hd => by
    obtain ⟨hdir, hruns⟩ := hall d hd
    refine ⟨hdir, fun hloop => ?_⟩
    obtain ⟨y, ys, hrow⟩ := List.exists_cons_of_ne_nil hruns.ne
    obtain ⟨-, hroad, hreverse⟩ := hruns.roads y (by simp [hrow])
    obtain ⟨r, hr, hends⟩ := hdir
    rw [← hreverse]
    refine hloops y (List.mem_flatMap.2 ⟨d, hd, by simp [hrow]⟩) r (hroad ▸ hr) ?_
    obtain hends | hends := hends
    · rw [hends] at hloop
      exact hloop
    · rw [hends] at hloop
      exact hloop.symm
  refine ⟨ds.map g.view, ⟨⟨Joined.map.2 hds, fun v hv => ?_⟩, List.flatMap_map _ _ _⟩, ?_⟩
  · obtain ⟨d, hd, rfl⟩ := List.mem_map.1 hv
    exact (RoadGraph.mem_edges hg).2 ⟨d, hoffers d hd, rfl, rfl⟩
  · rintro us ⟨hus, heq⟩
    refine h.expand_injective hg (fun u hu => exists_direction hg hus hu) (fun u hu => ?_)
      (heq.trans (List.flatMap_map _ _ _).symm)
    obtain ⟨d, hd, rfl⟩ := List.mem_map.1 hu
    exact ⟨d, hoffers d hd, rfl⟩

end Overlay.Spliced

/-! ## §4. The correspondence. -/

/-- **The overlay is invisible to routing between real nodes.**  Replacing each road of a walk by
the pieces for which it stands gives a walk of the query graph between the same nodes, of the same
weight and the same weight of turns; and each walk of the query graph between real nodes that makes
no turn round at a virtual node and takes no loop backwards comes from exactly one walk. -/
theorem overlay_walks_correspond (hg : g.Built) {snaps final : Array (Snap Exact)}
    (hsnaps : Splicing.OnRoads g snaps) (hbuild : Overlay.build g snaps = (.ok o, final))
    (hsum : DistancesAddUp g o) (w : SpeedWeighting Exact) (s t : NodeId) :
    (∀ us, IsWalk g s us t →
      IsWalk (QueryGraph.ofOverlay g o) s (us.flatMap (QueryGraph.ofOverlay g o).expand) t ∧
      walkWeight (QueryGraph.wrap o w.toWeighting)
          (us.flatMap (QueryGraph.ofOverlay g o).expand) = walkWeight w.toWeighting us ∧
      walkTurns (QueryGraph.wrap o w.toWeighting)
          (us.flatMap (QueryGraph.ofOverlay g o).expand) = walkTurns w.toWeighting us) ∧
    ∀ vs, IsWalk (QueryGraph.ofOverlay g o) s vs t → s < g.nodeCount → t < g.nodeCount →
      NoTurnRound o vs → ForwardOnLoops g vs →
        ∃! us, IsWalk g s us t ∧ us.flatMap (QueryGraph.ofOverlay g o).expand = vs := by
  have hwf := hg.wellFormed
  obtain ⟨cs, h, -⟩ := Overlay.spliced_of_build hwf hsnaps hbuild
  refine ⟨fun us hus => ?_, fun vs hvs hs ht hturns hloops =>
    h.existsUnique_isWalk hwf hvs hs ht hturns hloops⟩
  have hroads := fun u hu => Overlay.Spliced.exists_direction hwf hus (u := u) hu
  exact ⟨h.isWalk_expand hwf hus, h.walkWeight_expand hwf hsum hroads,
    h.walkTurns_expand hwf hroads⟩

/-- The distances of a road that is cut twice add up. -/
theorem distancesAddUp_cutRoad {word : Nat}
    (h : Spliced (Splicing.cutRoad word) o
      [Splicing.levelChain 0 (Splicing.atInner 0) (Splicing.between 0)]) :
    DistancesAddUp (Splicing.cutRoad word) o := by
  refine distancesAddUp_of_parts h (Splicing.built_cutRoad word).wellFormed fun c hc => ?_
  obtain rfl := List.mem_singleton.1 hc
  exact (RoadGraph.view_onlyRoad _ _ _ _ _).2.symm

/-- A drive along a road that is cut twice. -/
theorem overlay_walks_correspond_cutRoad :
    ∃ (o : Overlay Exact) (final : Array (Snap Exact)),
      ((Splicing.cutRoad 0).Built ∧ Splicing.OnRoads (Splicing.cutRoad 0) Splicing.cutSnaps ∧
        Overlay.build (Splicing.cutRoad 0) Splicing.cutSnaps = (.ok o, final) ∧
        DistancesAddUp (Splicing.cutRoad 0) o) ∧
      ∃ us, IsWalk (Splicing.cutRoad 0) 0 us 1 ∧ us ≠ [] ∧
        IsWalk (QueryGraph.ofOverlay (Splicing.cutRoad 0) o) 0
          (us.flatMap (QueryGraph.ofOverlay (Splicing.cutRoad 0) o).expand) 1 := by
  have hbuilt := Splicing.built_cutRoad 0
  have hsnaps := Splicing.onRoads_cutRoad 0
  obtain ⟨o, final, hbuild, h⟩ := Splicing.build_cutRoad 0
  have hsum := distancesAddUp_cutRoad h
  have hoffers : (Splicing.cutRoad 0).Offers RoadGraph.onlyRoad :=
    ⟨RoadGraph.hasDirection_onlyRoad _ _ _ _ _, fun _ => rfl⟩
  have hwalk : IsWalk (Splicing.cutRoad 0) 0 [(Splicing.cutRoad 0).view RoadGraph.onlyRoad] 1 := by
    refine ⟨⟨rfl, rfl⟩, fun v hv => ?_⟩
    rw [List.mem_singleton.1 hv]
    exact (RoadGraph.mem_edges hbuilt.wellFormed).2 ⟨_, hoffers, rfl, rfl⟩
  have hcorrespond := overlay_walks_correspond hbuilt hsnaps hbuild hsum
    SpeedWeighting.carWithoutTurns 0 1
  exact ⟨o, final, ⟨hbuilt, hsnaps, hbuild, hsum⟩, _, hwalk, List.cons_ne_nil _ _,
    (hcorrespond.1 _ hwalk).1⟩

end RoadSplice

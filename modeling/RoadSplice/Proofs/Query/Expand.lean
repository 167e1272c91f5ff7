/-
  RoadSplice.Proofs.Query.Expand — roads as rows of pieces.

  In a query graph a road that the overlay has cut is replaced by its pieces, taken one after the
  other.  Along such a row no turn is a turn round, and at each virtual node the only other way is
  back.
-/
import Mathlib.Data.List.Chain
import RoadSplice.Proofs.Query.Edges

namespace RoadSplice

open Overlay

variable {K : Type} {g : RoadGraph K} {o : Overlay K} {cs : List (Chain K)}
  {c : Chain K}

/-! ## §1. The pieces of a road. -/

/-- **What a road stands for** in a query graph: the pieces of the road in its direction, from its
base node to its adjacent node, or the road itself if there are none. -/
def QueryGraph.expand [Scalar K] (q : QueryGraph K) (v : EdgeView K) : List (EdgeView K) :=
  match (q.overlay.placesOf v.edge v.reverse).filterMap q.pieceView with
  | [] => [v]
  | first :: rest => if first.base = v.base then first :: rest else (first :: rest).reverse

/-! ## §2. Chains in order. -/

namespace Chain

/-- The views of a chain, in the order of its parts. -/
def views (c : Chain K) (g : RoadGraph K) (back : Bool) : List (EdgeView K) :=
  c.parts.mapIdx fun j part => c.view g j part back

/-- The road of a chain in its direction or against it. -/
def toward (c : Chain K) (back : Bool) : DirectedEdge := if back then c.road.reversed else c.road

/-- **The views of a chain as they are passed** along the chain or against it. -/
def run (c : Chain K) (g : RoadGraph K) (back : Bool) : List (EdgeView K) :=
  if back then (c.views g back).reverse else c.views g back

theorem toward_reverse (c : Chain K) (back : Bool) :
    (c.toward back).reverse = (c.road.reverse != back) := by
  cases back <;> simp [toward, DirectedEdge.reversed]

theorem toward_edge (c : Chain K) (back : Bool) : (c.toward back).edge = c.road.edge := by
  cases back <;> rfl

theorem mem_run {back : Bool} {v : EdgeView K} :
    v ∈ c.run g back ↔ ∃ j part, c.parts[j]? = some part ∧ v = c.view g j part back := by
  have hviews : v ∈ c.run g back ↔ v ∈ c.views g back := by
    cases back <;> simp [run]
  rw [hviews, views, List.mem_mapIdx]
  constructor
  · rintro ⟨j, hj, rfl⟩
    exact ⟨j, _, List.getElem?_eq_getElem hj, rfl⟩
  · rintro ⟨j, part, hpart, rfl⟩
    obtain ⟨hj, rfl⟩ := List.getElem?_eq_some_iff.1 hpart
    exact ⟨j, hj, rfl⟩

/-- Views of parts that meet at a virtual node, one passed after the other. -/
def Next (c : Chain K) (g : RoadGraph K) (back : Bool) (v v' : EdgeView K) : Prop :=
  ∃ j part part', c.parts[j]? = some part ∧ c.parts[j + 1]? = some part' ∧
    if back then v = c.view g (j + 1) part' back ∧ v' = c.view g j part back
    else v = c.view g j part back ∧ v' = c.view g (j + 1) part' back

theorem isChain_run (c : Chain K) (g : RoadGraph K) (back : Bool) :
    (c.run g back).IsChain (c.Next g back) := by
  have hviews : ∀ R : EdgeView K → EdgeView K → Prop,
      (∀ j part part', c.parts[j]? = some part → c.parts[j + 1]? = some part' →
        R (c.view g j part back) (c.view g (j + 1) part' back)) → (c.views g back).IsChain R := by
    intro R hR
    refine List.isChain_iff_getElem.2 fun i hi => ?_
    have hi' : i + 1 < c.parts.length := by simpa [views] using hi
    simp only [views, List.getElem_mapIdx]
    exact hR i _ _ (List.getElem?_eq_getElem (Nat.lt_of_succ_lt hi')) (List.getElem?_eq_getElem hi')
  cases back with
  | false => exact hviews _ fun j part part' hp hp' => ⟨j, part, part', hp, hp', rfl, rfl⟩
  | true =>
    refine List.isChain_reverse.2 ?_
    exact hviews _ fun j part part' hp hp' => ⟨j, part, part', hp, hp', rfl, rfl⟩

theorem Next.adj_eq {back : Bool} {v v' : EdgeView K} (h : c.Next g back v v') :
    v.adj = v'.base := by
  obtain ⟨j, part, part', -, -, heq⟩ := h
  cases back <;> obtain ⟨rfl, rfl⟩ := heq <;> rfl

/-- **The nodes between which a chain is passed.** -/
theorem joined_run (c : Chain K) (g : RoadGraph K) (back : Bool)
    (hlength : c.parts.length = c.points.length + 1) :
    Joined (·.base) (·.adj) (c.toward back).base (c.run g back) (c.toward back).adj := by
  have hne : c.parts ≠ [] := List.ne_nil_of_length_pos (by omega)
  have hviews : c.views g back ≠ [] := by simpa [views] using hne
  have hfirst : (c.views g back).head hviews = c.view g 0 (c.parts.head hne) back := by
    simp [views, List.head_mapIdx]
  have hlast : (c.views g back).getLast hviews =
      c.view g c.points.length (c.parts.getLast hne) back := by
    simp [views, List.getLast_mapIdx, hlength]
  have hrun : c.run g back ≠ [] := by
    unfold run
    split <;> simpa using hviews
  have hjoined : Joined (·.base) (·.adj) ((c.run g back).head hrun).base (c.run g back)
      ((c.run g back).getLast hrun).adj :=
    joined_of_isChain ((c.isChain_run g back).imp fun _ _ hnext => hnext.adj_eq) hrun
  -- Passed backwards, the run begins where the chain ends.
  have hends : ((c.run g back).head hrun).base = (c.toward back).base ∧
      ((c.run g back).getLast hrun).adj = (c.toward back).adj := by
    cases back with
    | false => exact ⟨congrArg EdgeView.base hfirst, (congrArg EdgeView.adj hlast).trans (c.node_last _)⟩
    | true =>
      simp only [run, ↓reduceIte, List.head_reverse, List.getLast_reverse]
      exact ⟨(congrArg EdgeView.base hlast).trans (c.node_last _), congrArg EdgeView.adj hfirst⟩
  rwa [hends.1, hends.2] at hjoined

end Chain

/-! ## §3. What a road stands for. -/

namespace Overlay.Spliced

variable [Scalar K]

/-- **A road with a chain stands for the chain.** -/
theorem expand_chain (h : Spliced g o cs) (hg : g.WellFormed) (hc : c ∈ cs) (back : Bool) :
    (QueryGraph.ofOverlay g o).expand (g.view (c.toward back)) = c.run g back := by
  have hlength := h.laid.parts_length c hc
  have hne : c.parts ≠ [] := List.ne_nil_of_length_pos (by omega)
  have hviews : (o.placesOf (c.toward back).edge (c.toward back).reverse).filterMap
      (QueryGraph.ofOverlay g o).pieceView = c.views g back := by
    rw [c.toward_edge, c.toward_reverse, h.laid.placesOf_chain h.distinct hc, List.filterMap_map]
    have hread : ∀ j ∈ List.range c.parts.length,
        (QueryGraph.ofOverlay g o).pieceView (c.place j back) = (c.views g back)[j]? := fun j hj => by
      have hpart : c.parts[j]? = some _ := List.getElem?_eq_getElem (List.mem_range.1 hj)
      rw [h.pieceView_place hc hpart back]
      simp [Chain.views, hpart]
    have hcount : c.parts.length = (c.views g back).length := by simp [Chain.views]
    rw [← filterMap_range_getElem? (c.views g back), ← hcount]
    exact List.filterMap_congr hread
  obtain ⟨part, first, rest, hcons, hfirst⟩ : ∃ part first rest,
      c.views g back = first :: rest ∧ first = c.view g 0 part back := by
    cases hparts : c.parts with
    | nil => exact absurd hparts hne
    | cons part parts => exact ⟨part, _, _, by rw [Chain.views, hparts, List.mapIdx_cons], rfl⟩
  have hbase : first.base = (c.toward back).base ↔ back = false := by
    rw [hfirst]
    cases back with
    | false => exact iff_of_true rfl rfl
    | true =>
      -- Against the chain the first part begins at a virtual node.
      have hvirtual := (h.le_along hc (List.length_pos_iff.2 (h.laid.points_ne c hc))).1
      refine iff_of_false (fun heq => ?_) (by simp)
      have hreal : c.along g 1 = c.road.adj := heq
      rw [Nat.zero_add, hreal] at hvirtual
      exact absurd (h.node_lt hg hc).2 (Nat.not_lt.2 hvirtual)
  show (match (o.placesOf (c.toward back).edge (c.toward back).reverse).filterMap
      (QueryGraph.ofOverlay g o).pieceView with
    | [] => [g.view (c.toward back)]
    | first :: rest => if first.base = (c.toward back).base then first :: rest
      else (first :: rest).reverse) = _
  rw [hviews, Chain.run, hcons]
  cases back with
  | false => simp only [hbase, ↓reduceIte, Bool.false_eq_true]
  | true => simp only [hbase, ↓reduceIte, Bool.true_eq_false]

/-- **A road without a chain stands for itself.** -/
theorem expand_uncut (h : Spliced g o cs) {d : DirectedEdge}
    (hd : ∀ c ∈ cs, c.road.edge ≠ d.edge) :
    (QueryGraph.ofOverlay g o).expand (g.view d) = [g.view d] := by
  show (match (o.placesOf d.edge d.reverse).filterMap (QueryGraph.ofOverlay g o).pieceView with
    | [] => [g.view d]
    | first :: rest => if first.base = d.base then first :: rest else (first :: rest).reverse) = _
  rw [h.laid.placesOf_uncut hd]
  rfl

omit [Scalar K] in
/-- The road behind a part. -/
theorem roadOf_view (h : Spliced g o cs) (hc : c ∈ cs) {j : Nat} {part : Part K}
    (hpart : c.parts[j]? = some part) (back : Bool) :
    o.roadOf (c.view g j part back).edge = c.road.edge := by
  simp only [roadOf, virtualEdge?, h.index?_view hc hpart back, Option.bind_some,
    h.laid.piece?_place hc hpart back, Option.map_some, Option.getD_some]
  cases back <;> rfl

omit [Scalar K] in
/-- The road behind a road. -/
theorem roadOf_road (h : Spliced g o cs) {d : DirectedEdge} (hd : g.HasDirection d) :
    o.roadOf d.edge = d.edge := by
  simp [roadOf, virtualEdge?, h.index?_road hd]

omit [Scalar K] in
/-- **Two parts of one chain make a turn round** when they are the same part. -/
theorem isUTurn_view (h : Spliced g o cs) (hc : c ∈ cs) {j j' : Nat} {part part' : Part K}
    (hpart : c.parts[j]? = some part) (hpart' : c.parts[j']? = some part') (back back' : Bool) :
    o.isUTurn (c.view g j part back).edge (c.view g j' part' back').edge = true ↔ j = j' := by
  have hindex := h.index?_view hc hpart back
  have hindex' := h.index?_view hc hpart' back'
  have hpair : (o.piece? (c.place j back)).map (·.pair) = some (c.place j !back) := by
    rw [h.laid.piece?_place hc hpart back]
    cases back <;> rfl
  simp only [isUTurn, hindex, hindex', hpair, Bool.or_eq_true, beq_iff_eq, Option.some.injEq]
  constructor
  · rintro (heq | heq | heq)
    · rw [heq, hindex', Option.some.injEq] at hindex
      exact (Chain.place_inj hindex).1.symm
    · exact (Chain.place_inj heq).1
    · exact (Chain.place_inj heq).1
  · rintro rfl
    obtain rfl : part = part' := by simpa using hpart.symm.trans hpart'
    by_cases hb : back' = back
    · exact .inl (by rw [hb])
    · exact .inr (.inr (by rw [Bool.eq_not.2 hb]))

end Overlay.Spliced

/-! ## §4. Passing virtual nodes. -/

variable [Scalar K]

/-- **Two edges pass a virtual node**: the second one is the only way on that is no turn round. -/
structure Passes (g : RoadGraph K) (o : Overlay K) (cs : List (Chain K)) (v v' : EdgeView K) :
    Prop where
  virtual : o.isVirtualNode v.adj = true
  adj_eq : v.adj = v'.base
  no_turn : o.isUTurn v.edge v'.edge = false
  only : ∀ u, QueryEdge g cs u → u.base = v.adj → u = v' ∨ o.isUTurn v.edge u.edge = true

/-- **A row of edges that a road stands for.** -/
structure Runs (g : RoadGraph K) (o : Overlay K) (cs : List (Chain K)) (d : DirectedEdge)
    (vs : List (EdgeView K)) : Prop where
  ne : vs ≠ []
  joined : Joined (·.base) (·.adj) d.base vs d.adj
  edges : ∀ v ∈ vs, QueryEdge g cs v
  roads : ∀ v ∈ vs, o.roadOf v.edge = d.edge ∧ v.road = d.edge ∧ v.reverse = d.reverse
  passes : vs.IsChain (Passes g o cs)

namespace Overlay.Spliced

theorem passes_of_next (h : Spliced g o cs) (hg : g.WellFormed) (hc : c ∈ cs) {back : Bool}
    {v v' : EdgeView K} (hnext : c.Next g back v v') : Passes g o cs v v' := by
  obtain ⟨j, part, part', hpart, hpart', hviews⟩ := id hnext
  have hlength := h.laid.parts_length c hc
  have hj : j < c.points.length := by
    have hlt := (List.getElem?_eq_some_iff.1 hpart').1
    omega
  have hadj : v.adj = c.along g (j + 1) := by
    cases back <;> obtain ⟨rfl, rfl⟩ := hviews <;> rfl
  -- At a virtual node there are two ways: on along the chain, and back the way one came.
  have honly : ∀ u, QueryEdge g cs u → u.base = v.adj →
      u = c.view g j part true ∨ u = c.view g (j + 1) part' false := fun u hu hbase => by
    have hmem := (h.mem_edges hg).2 ⟨hu, hbase⟩
    rw [hadj, h.edges_virtual hc hpart hpart'] at hmem
    simpa using hmem
  refine ⟨hadj ▸ h.isVirtualNode_along hc hj, hnext.adj_eq, ?_, fun u hu hbase => ?_⟩
  · rw [← Bool.not_eq_true]
    cases back <;> obtain ⟨rfl, rfl⟩ := hviews
    · rw [h.isUTurn_view hc hpart hpart']
      omega
    · rw [h.isUTurn_view hc hpart' hpart]
      omega
  · cases back <;> obtain ⟨rfl, rfl⟩ := hviews
    · obtain rfl | rfl := honly u hu hbase
      · exact .inr ((h.isUTurn_view hc hpart hpart false true).2 rfl)
      · exact .inl rfl
    · obtain rfl | rfl := honly u hu hbase
      · exact .inl rfl
      · exact .inr ((h.isUTurn_view hc hpart' hpart' true false).2 rfl)

theorem runs_chain (h : Spliced g o cs) (hg : g.WellFormed) (hc : c ∈ cs) (back : Bool) :
    Runs g o cs (c.toward back) (c.run g back) where
  ne hnil := by
    have hlength := h.laid.parts_length c hc
    have hparts : c.parts = [] := by
      cases back <;> simpa [Chain.run, Chain.views] using hnil
    simp [hparts] at hlength
  joined := c.joined_run g back (h.laid.parts_length c hc)
  edges v hv := by
    obtain ⟨j, part, hpart, rfl⟩ := Chain.mem_run.1 hv
    exact .inl ⟨c, hc, j, part, back, hpart, rfl⟩
  roads v hv := by
    obtain ⟨j, part, hpart, rfl⟩ := Chain.mem_run.1 hv
    rw [h.roadOf_view hc hpart, c.toward_edge, c.toward_reverse]
    exact ⟨rfl, rfl, rfl⟩
  passes := (c.isChain_run g back).imp fun _ _ hnext => h.passes_of_next hg hc hnext

/-- **What a road stands for is such a row**, if the road is offered or carries a chain. -/
theorem runs_expand (h : Spliced g o cs) (hg : g.WellFormed) {d : DirectedEdge}
    (hd : g.HasDirection d) (hoffers : g.Offers d ∨ ∃ c ∈ cs, c.road.edge = d.edge) :
    Runs g o cs d ((QueryGraph.ofOverlay g o).expand (g.view d)) := by
  by_cases hcut : ∃ c ∈ cs, c.road.edge = d.edge
  · obtain ⟨c, hc, hedge⟩ := hcut
    obtain ⟨back, rfl⟩ : ∃ back, d = c.toward back := by
      obtain hroad | hroad := hd.eq_or_reversed (h.direction c hc) hedge.symm
      · exact ⟨false, hroad⟩
      · exact ⟨true, hroad⟩
    rw [h.expand_chain hg hc back]
    exact h.runs_chain hg hc back
  · -- A road that is not cut is a row by itself.
    have huncut : ∀ c ∈ cs, c.road.edge ≠ d.edge := fun c hc hedge => hcut ⟨c, hc, hedge⟩
    have hoff : g.Offers d := hoffers.resolve_right hcut
    rw [h.expand_uncut huncut]
    refine ⟨by simp, ⟨rfl, rfl⟩, fun v hv => ?_, fun v hv => ?_, .singleton _⟩
    · obtain rfl : v = g.view d := by simpa using hv
      exact .inr ⟨d, hoff, huncut, rfl⟩
    · obtain rfl : v = g.view d := by simpa using hv
      exact ⟨h.roadOf_road hd, rfl, rfl⟩

end Overlay.Spliced

end RoadSplice

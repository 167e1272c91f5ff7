/-
  RoadSplice.Proofs.Query.Edges — the edges of a query graph.

  Where a built overlay lies on a graph, a node offers the pieces that begin there and the roads
  that begin there and carry no chain; this is so at real and at virtual nodes alike.
-/
import RoadSplice.Proofs.Overlay.Deltas
import RoadSplice.Proofs.Search.Dijkstra
import RoadSplice.Query.Basic

namespace RoadSplice

open Overlay

variable {K : Type} {g : RoadGraph K} {o : Overlay K} {cs : List (Chain K)}
  {c : Chain K}

/-! ## §1. Views of pieces. -/

/-- The view of a piece at a place, over the road behind it. -/
def Piece.view (p : Piece K) (g : RoadGraph K) (index : Nat) : EdgeView K :=
  { edge := p.id
    base := p.base
    adj := p.adj
    reverse := p.reverse
    road := p.road
    piece := some index
    distance := p.distance
    shape := p.shape
    name := (g.roads[p.road]?.map (·.name)).getD ""
    word := g.word p.road
    unfavored := p.unfavored }

/-- **What a query graph shows at a place** is the piece there. -/
theorem QueryGraph.pieceView_eq {q : QueryGraph K} {i : Nat} {p : Piece K}
    (hp : q.overlay.piece? i = some p) : q.pieceView i = some (p.view q.base i) := by
  unfold QueryGraph.pieceView Overlay.view
  rw [hp]
  rfl

namespace Chain

/-- The nodes along a chain on a graph. -/
def along (c : Chain K) (g : RoadGraph K) (j : Nat) : NodeId := c.node g.nodeCount j

/-- **The view of a part**, in the direction of the chain or against it. -/
def view (c : Chain K) (g : RoadGraph K) (j : Nat) (part : Part K) (back : Bool) : EdgeView K :=
  { edge := (c.piece g.nodeCount g.edgeCount j part back).id
    base := c.along g (if back then j + 1 else j)
    adj := c.along g (if back then j else j + 1)
    reverse := c.road.reverse != back
    road := c.road.edge
    piece := some (c.place j back)
    distance := part.distance
    shape := if back then part.shape.reverse else part.shape
    name := (g.roads[c.road.edge]?.map (·.name)).getD ""
    word := g.word c.road.edge
    unfavored := false }

end Chain

theorem Overlay.Spliced.node_lt (h : Spliced g o cs) (hg : g.WellFormed) (hc : c ∈ cs) :
    c.road.base < g.nodeCount ∧ c.road.adj < g.nodeCount :=
  ⟨hg.touches_lt (h.direction c hc).touches.1, hg.touches_lt (h.direction c hc).touches.2⟩

namespace Overlay.Fastened

/-- The view at the place of a part. -/
theorem pieceView_place (h : Fastened g o cs) (hc : c ∈ cs) {j : Nat} {part : Part K}
    (hpart : c.parts[j]? = some part) (back : Bool) :
    (QueryGraph.ofOverlay g o).pieceView (c.place j back) = some (c.view g j part back) := by
  rw [QueryGraph.pieceView_eq (h.laid.piece?_place hc hpart back), h.firstNode_eq, h.firstEdge_eq]
  cases back
  · simp [Piece.view, Chain.view, Chain.piece, Chain.along, QueryGraph.ofOverlay]
  · simp [Piece.view, Chain.view, Chain.piece, Chain.along, QueryGraph.ofOverlay]

theorem isVirtualNode_along (h : Fastened g o cs) (hc : c ∈ cs) {j : Nat}
    (hj : j < c.points.length) : o.isVirtualNode (c.along g (j + 1)) = true := by
  have hvirtual := h.laid.isVirtualNode_virtual hc hj
  rwa [h.firstNode_eq] at hvirtual

theorem isVirtualNode_of_lt (h : Fastened g o cs) {n : NodeId} (hn : n < g.nodeCount) :
    o.isVirtualNode n = false := Overlay.isVirtualNode_of_lt (h.firstNode_eq.symm ▸ hn)

/-- Where a view of a part begins: at an end of the road, or at a virtual node. -/
theorem base_cases (h : Fastened g o cs) (hc : c ∈ cs) {j : Nat} {part : Part K}
    (hpart : c.parts[j]? = some part) (back : Bool) :
    (j = 0 ∧ back = false ∧ (c.view g j part back).base = c.road.base) ∨
      (j = c.points.length ∧ back = true ∧ (c.view g j part back).base = c.road.adj) ∨
      ∃ i, i < c.points.length ∧ (c.view g j part back).base = c.along g (i + 1) ∧
        ((j = i ∧ back = true) ∨ (j = i + 1 ∧ back = false)) := by
  have hj : j < c.parts.length := (List.getElem?_eq_some_iff.1 hpart).1
  rw [h.laid.parts_length c hc] at hj
  cases back with
  | false =>
    cases j with
    | zero => exact .inl ⟨rfl, rfl, rfl⟩
    | succ i => exact .inr (.inr ⟨i, Nat.lt_of_succ_lt_succ hj, rfl, .inr ⟨rfl, rfl⟩⟩)
  | true =>
    obtain hlt | rfl := Nat.lt_succ_iff_lt_or_eq.1 hj
    · exact .inr (.inr ⟨j, hlt, rfl, .inl ⟨rfl, rfl⟩⟩)
    · exact .inr (.inl ⟨rfl, rfl, c.node_last _⟩)

/-- Virtual nodes are told apart by their chains and their places in them. -/
theorem along_inj (h : Fastened g o cs) {c' : Chain K} (hc : c ∈ cs) (hc' : c' ∈ cs) {i i' : Nat}
    (hi : i < c.points.length) (hi' : i' < c'.points.length)
    (heq : c.along g (i + 1) = c'.along g (i' + 1)) : c = c' ∧ i = i' := by
  unfold Chain.along at heq
  rw [c.node_virtual _ hi, c'.node_virtual _ hi'] at heq
  exact h.laid.node_inj h.distinct hc hc' hi hi' (Nat.add_left_cancel heq)

/-- Virtual nodes are no nodes of the graph. -/
theorem le_along (h : Fastened g o cs) (hc : c ∈ cs) {i : Nat} (hi : i < c.points.length) :
    g.nodeCount ≤ c.along g (i + 1) ∧ c.along g (i + 1) < g.nodeCount + o.nodeCount := by
  unfold Chain.along
  rw [c.node_virtual _ hi]
  have hlt : c.start + i < o.nodes.size := (Array.getElem?_eq_some_iff.1
    ((h.laid.carries c hc).node i _ (List.getElem?_eq_getElem hi))).1
  exact ⟨Nat.le_add_right _ _, Nat.add_lt_add_left hlt _⟩

end Overlay.Fastened

/-- A part that begins at a virtual node begins inside its chain. -/
theorem Overlay.Spliced.base_virtual (h : Spliced g o cs) (hg : g.WellFormed) (hc : c ∈ cs) {j : Nat}
    {part : Part K} (hpart : c.parts[j]? = some part) (back : Bool)
    (hvirtual : o.isVirtualNode (c.view g j part back).base = true) :
    ∃ i, i < c.points.length ∧ (c.view g j part back).base = c.along g (i + 1) := by
  obtain ⟨-, -, hb⟩ | ⟨-, -, hb⟩ | ⟨i, hi, hb, -⟩ := h.base_cases hc hpart back
  · rw [hb, h.isVirtualNode_of_lt (h.node_lt hg hc).1] at hvirtual
    simp at hvirtual
  · rw [hb, h.isVirtualNode_of_lt (h.node_lt hg hc).2] at hvirtual
    simp at hvirtual
  · exact ⟨i, hi, hb⟩

/-! ## §2. Pieces at a node. -/

/-- A part of a chain in one of its directions. -/
def PieceView (g : RoadGraph K) (cs : List (Chain K)) (v : EdgeView K) : Prop :=
  ∃ c ∈ cs, ∃ j part back, c.parts[j]? = some part ∧ v = c.view g j part back

/-- The same part in the opposite direction. -/
theorem PieceView.exists_opposite {v : EdgeView K} (hv : PieceView g cs v) :
    ∃ u, PieceView g cs u ∧ u.base = v.adj ∧ u.adj = v.base ∧ u.word = v.word ∧
      u.reverse = (!v.reverse) ∧ u.distance = v.distance ∧ u.unfavored = v.unfavored := by
  obtain ⟨c, hc, j, part, back, hpart, rfl⟩ := hv
  refine ⟨c.view g j part (!back), ⟨c, hc, j, part, !back, hpart, rfl⟩, ?_⟩
  cases back <;> exact ⟨rfl, rfl, rfl, by simp [Chain.view], rfl, rfl⟩

namespace Overlay

/-- The places of the pieces that a node offers. -/
def placesAt (o : Overlay K) (n : NodeId) : List Nat :=
  if o.isVirtualNode n then o.leaving n else ((o.delta? n).map (·.additions)).getD []

/-- Whether a node no longer offers a road. -/
def hides (o : Overlay K) (n : NodeId) (e : EdgeId) : Bool :=
  ((o.delta? n).map (·.isRemoved e)).getD false

namespace Fastened

theorem placesAt_virtual (h : Fastened g o cs) (hc : c ∈ cs) {i : Nat} (hi : i < c.points.length) :
    o.placesAt (c.along g (i + 1)) = [c.place i true, c.place (i + 1) false] := by
  have hleaving := h.laid.leaving_virtual hc hi
  rw [h.firstNode_eq] at hleaving
  rw [placesAt, if_pos (h.isVirtualNode_along hc hi)]
  exact hleaving

/-- The part that begins at a real node is the end of a chain there. -/
theorem endPlace_iff (h : Fastened g o cs) {r : NodeId} {p : Nat}
    (hr : o.isVirtualNode r = false) :
    EndPlace cs r p ↔ ∃ c ∈ cs, ∃ j part back, c.parts[j]? = some part ∧ p = c.place j back ∧
      (c.view g j part back).base = r := by
  constructor
  · rintro ⟨c, hc, ⟨rfl, rfl⟩ | ⟨rfl, rfl⟩⟩
    · obtain ⟨part, hpart⟩ := h.laid.exists_part hc (Nat.zero_le _)
      exact ⟨c, hc, 0, part, false, hpart, rfl, rfl⟩
    · obtain ⟨part, hpart⟩ := h.laid.exists_part hc (Nat.le_refl _)
      exact ⟨c, hc, _, part, true, hpart, rfl, c.node_last _⟩
  · rintro ⟨c, hc, j, part, back, hpart, rfl, rfl⟩
    obtain ⟨rfl, rfl, hb⟩ | ⟨rfl, rfl, hb⟩ | ⟨i, hi, hb, -⟩ := h.base_cases hc hpart back
    · exact ⟨c, hc, .inl ⟨hb.symm, rfl⟩⟩
    · exact ⟨c, hc, .inr ⟨hb.symm, rfl⟩⟩
    · rw [hb, h.isVirtualNode_along hc hi] at hr
      simp at hr

/-- The pieces of a real node are the ends of the chains there. -/
theorem mem_placesAt_real (h : Fastened g o cs) {n : NodeId} {p : Nat}
    (hn : o.isVirtualNode n = false) : p ∈ o.placesAt n ↔ EndPlace cs n p := by
  rw [placesAt, if_neg (by simp [hn])]
  cases hdelta : o.delta? n with
  | none =>
    have hno := h.unchanged n hdelta
    refine iff_of_false (by simp) ?_
    rintro ⟨c, hc, ⟨hend, -⟩ | ⟨hend, -⟩⟩
    · exact (hno c hc).1 hend
    · exact (hno c hc).2 hend
  | some d => simpa using (h.additions n d hdelta).2 p

/-- **A node hides the roads of the chains that end there.** -/
theorem hides_iff (h : Fastened g o cs) {n : NodeId} {e : EdgeId} :
    o.hides n e = true ↔ ∃ c ∈ cs, c.road.edge = e ∧ (c.road.base = n ∨ c.road.adj = n) := by
  unfold hides
  cases hdelta : o.delta? n with
  | none =>
    have hno := h.unchanged n hdelta
    refine iff_of_false (by simp) ?_
    rintro ⟨c, hc, -, hend | hend⟩
    · exact (hno c hc).1 hend
    · exact (hno c hc).2 hend
  | some d => simpa using h.removals n d hdelta e

/-- **One end of a part is a virtual node.** -/
theorem virtual_end (h : Fastened g o cs) {v : EdgeView K} (hv : PieceView g cs v) :
    o.isVirtualNode v.base = true ∨ o.isVirtualNode v.adj = true := by
  obtain ⟨c, hc, j, part, back, hpart, rfl⟩ := hv
  have hlength := h.laid.parts_length c hc
  have hpos := List.length_pos_iff.2 (h.laid.points_ne c hc)
  have hj : j < c.parts.length := (List.getElem?_eq_some_iff.1 hpart).1
  by_cases hlast : j < c.points.length
  · have hvirtual := h.isVirtualNode_along hc hlast
    cases back with
    | false => exact .inr hvirtual
    | true => exact .inl hvirtual
  · have hvirtual := h.isVirtualNode_along hc (Nat.sub_one_lt_of_lt hpos)
    rw [show c.points.length - 1 + 1 = j by omega] at hvirtual
    cases back with
    | false => exact .inl hvirtual
    | true => exact .inr hvirtual

end Fastened

namespace Spliced

/-- The pieces of a virtual node are those that begin there. -/
theorem mem_placesAt_virtual (h : Spliced g o cs) (hg : g.WellFormed) (hc : c ∈ cs) {i p : Nat}
    (hi : i < c.points.length) :
    p ∈ o.placesAt (c.along g (i + 1)) ↔ ∃ c' ∈ cs, ∃ j part back, c'.parts[j]? = some part ∧
      p = c'.place j back ∧ (c'.view g j part back).base = c.along g (i + 1) := by
  rw [h.placesAt_virtual hc hi, List.mem_pair]
  constructor
  · rintro (rfl | rfl)
    · obtain ⟨part, hpart⟩ := h.laid.exists_part hc (Nat.le_of_lt hi)
      exact ⟨c, hc, i, part, true, hpart, rfl, rfl⟩
    · obtain ⟨part, hpart⟩ := h.laid.exists_part hc (Nat.succ_le_of_lt hi)
      exact ⟨c, hc, i + 1, part, false, hpart, rfl, rfl⟩
  · rintro ⟨c', hc', j, part, back, hpart, rfl, hbase⟩
    have hge := (h.le_along hc hi).1
    -- A piece that begins at a real node does not begin here.
    obtain ⟨-, -, hb⟩ | ⟨-, -, hb⟩ | ⟨i', hi', hb, hor⟩ := h.base_cases hc' hpart back
    · exact absurd (h.node_lt hg hc').1 (Nat.not_lt.2 (hb ▸ hbase ▸ hge))
    · exact absurd (h.node_lt hg hc').2 (Nat.not_lt.2 (hb ▸ hbase ▸ hge))
    · obtain ⟨rfl, rfl⟩ := h.along_inj hc' hc hi' hi (hb.symm.trans hbase)
      obtain ⟨rfl, rfl⟩ | ⟨rfl, rfl⟩ := hor
      · exact .inl rfl
      · exact .inr rfl

/-- **The pieces of a node are those that begin there.** -/
theorem mem_placesAt (h : Spliced g o cs) (hg : g.WellFormed) {n : NodeId} {p : Nat} :
    p ∈ o.placesAt n ↔ ∃ c ∈ cs, ∃ j part back, c.parts[j]? = some part ∧ p = c.place j back ∧
      (c.view g j part back).base = n := by
  cases hn : o.isVirtualNode n with
  | true =>
    obtain ⟨c, hc, i, hi, rfl⟩ := h.laid.exists_of_isVirtualNode hn
    rw [h.firstNode_eq]
    exact h.mem_placesAt_virtual hg hc hi
  | false => rw [h.mem_placesAt_real hn, h.endPlace_iff hn]

/-- The places of a node are those of the pieces that begin there. -/
theorem mem_placesAt_iff (h : Spliced g o cs) (hg : g.WellFormed) {n : NodeId} {i : Nat} :
    i ∈ o.placesAt n ↔ ∃ p, o.piece? i = some p ∧ p.base = n := by
  have hbase : ∀ {c : Chain K} {j : Nat} {part : Part K} (back : Bool), c ∈ cs →
      c.parts[j]? = some part → ∃ p, o.piece? (c.place j back) = some p ∧
        p.base = (c.view g j part back).base := by
    intro c j part back hc hpart
    refine ⟨_, h.laid.piece?_place hc hpart back, ?_⟩
    rw [h.firstNode_eq, h.firstEdge_eq]
    cases back <;> rfl
  rw [h.mem_placesAt hg]
  constructor
  · rintro ⟨c, hc, j, part, back, hpart, rfl, rfl⟩
    exact hbase back hc hpart
  · rintro ⟨p, hp, rfl⟩
    obtain ⟨c, hc, j, part, back, hpart, rfl, -⟩ := h.laid.exists_of_piece? hp
    obtain ⟨p', hp', hbegins⟩ := hbase back hc hpart
    obtain rfl : p' = p := Option.some.inj (hp'.symm.trans hp)
    exact ⟨c, hc, j, part, back, hpart, rfl, hbegins.symm⟩

/-- A node hides a direction that begins there exactly when its road carries a chain. -/
theorem hides_base (h : Spliced g o cs) {d : DirectedEdge} (hd : g.HasDirection d) :
    o.hides d.base d.edge = true ↔ ∃ c ∈ cs, c.road.edge = d.edge := by
  rw [h.hides_iff]
  constructor
  · rintro ⟨c, hc, hedge, -⟩
    exact ⟨c, hc, hedge⟩
  · rintro ⟨c, hc, hedge⟩
    refine ⟨c, hc, hedge, ?_⟩
    obtain hroad | hroad := (h.direction c hc).eq_or_reversed hd hedge
    · exact .inl (congrArg DirectedEdge.base hroad)
    · exact .inr (congrArg DirectedEdge.adj hroad)

end Spliced

end Overlay

/-! ## §3. What a node offers. -/

variable [Scalar K]

/-- **The edges of a query graph**: the parts of the chains in both directions, and the roads that
carry no chain. -/
def QueryEdge (g : RoadGraph K) (cs : List (Chain K)) (v : EdgeView K) : Prop :=
  PieceView g cs v ∨ ∃ d, g.Offers d ∧ (∀ c ∈ cs, c.road.edge ≠ d.edge) ∧ v = g.view d

/-- A node offers its pieces, and a real one also the roads that it does not hide. -/
theorem QueryGraph.edges_eq (g : RoadGraph K) (o : Overlay K) (n : NodeId) :
    (QueryGraph.ofOverlay g o).edges n =
      (o.placesAt n).filterMap (QueryGraph.ofOverlay g o).pieceView ++
        if o.isVirtualNode n then [] else (g.edges n).filter fun v => !o.hides n v.edge := by
  unfold QueryGraph.edges Overlay.placesAt Overlay.hides
  simp only [QueryGraph.isVirtualNode, QueryGraph.ofOverlay]
  by_cases hvirtual : o.isVirtualNode n
  · simp [hvirtual]
  · cases o.delta? n <;> simp [hvirtual]

namespace Overlay.Spliced

/-- The two edges of a virtual node. -/
theorem edges_virtual (h : Spliced g o cs) (hc : c ∈ cs) {i : Nat} {part part' : Part K}
    (hpart : c.parts[i]? = some part) (hpart' : c.parts[i + 1]? = some part') :
    (QueryGraph.ofOverlay g o).edges (c.along g (i + 1)) =
      [c.view g i part true, c.view g (i + 1) part' false] := by
  have hlength := h.laid.parts_length c hc
  have hi : i < c.points.length := by
    have hlt := (List.getElem?_eq_some_iff.1 hpart').1
    omega
  rw [QueryGraph.edges_eq, h.placesAt_virtual hc hi, if_pos (h.isVirtualNode_along hc hi)]
  simp [h.pieceView_place hc hpart, h.pieceView_place hc hpart']

/-- **What a node offers**: the edges of the query graph that begin there. -/
theorem mem_edges (h : Spliced g o cs) (hg : g.WellFormed) {n : NodeId} {v : EdgeView K} :
    v ∈ (QueryGraph.ofOverlay g o).edges n ↔ QueryEdge g cs v ∧ v.base = n := by
  have hpieces : v ∈ (o.placesAt n).filterMap (QueryGraph.ofOverlay g o).pieceView ↔
      PieceView g cs v ∧ v.base = n := by
    rw [List.mem_filterMap]
    constructor
    · rintro ⟨p, hp, hv⟩
      obtain ⟨c, hc, j, part, back, hpart, rfl, rfl⟩ := (h.mem_placesAt hg).1 hp
      obtain rfl : c.view g j part back = v := by
        simpa [h.pieceView_place hc hpart] using hv
      exact ⟨⟨c, hc, j, part, back, hpart, rfl⟩, rfl⟩
    · rintro ⟨⟨c, hc, j, part, back, hpart, rfl⟩, rfl⟩
      exact ⟨_, (h.mem_placesAt hg).2 ⟨c, hc, j, part, back, hpart, rfl, rfl⟩,
        h.pieceView_place hc hpart back⟩
  have hroads : (v ∈ if o.isVirtualNode n then []
      else (g.edges n).filter fun v => !o.hides n v.edge) ↔
      (∃ d, g.Offers d ∧ (∀ c ∈ cs, c.road.edge ≠ d.edge) ∧ v = g.view d) ∧ v.base = n := by
    split
    · -- Roads begin at real nodes only.
      rename_i hn
      refine iff_of_false (by simp) ?_
      rintro ⟨⟨d, hd, -, rfl⟩, rfl⟩
      have hreal := h.isVirtualNode_of_lt (hg.touches_lt hd.1.touches.1)
      have hn : o.isVirtualNode d.base = true := hn
      simp [hn] at hreal
    · rw [List.mem_filter, RoadGraph.mem_edges hg, Bool.not_eq_true']
      constructor
      · rintro ⟨⟨d, hd, rfl, rfl⟩, hkept⟩
        refine ⟨⟨d, hd, fun c hc heq => ?_, rfl⟩, rfl⟩
        have hhidden := (h.hides_base hd.1).2 ⟨c, hc, heq⟩
        have hkept : o.hides d.base d.edge = false := hkept
        simp [hhidden] at hkept
      · rintro ⟨⟨d, hd, huncut, rfl⟩, rfl⟩
        refine ⟨⟨d, hd, rfl, rfl⟩, ?_⟩
        rw [← Bool.not_eq_true]
        refine fun hhidden => ?_
        obtain ⟨c, hc, heq⟩ := (h.hides_base hd.1).1 hhidden
        exact huncut c hc heq
  rw [QueryGraph.edges_eq, List.mem_append, hpieces, hroads, ← or_and_right]
  exact Iff.rfl

/-! ## §4. Ends and ids. -/

/-- An edge ends at a node of the query graph. -/
theorem adj_lt (h : Spliced g o cs) (hg : g.WellFormed) {v : EdgeView K} (hv : QueryEdge g cs v) :
    v.adj < (QueryGraph.ofOverlay g o).nodeCount := by
  show v.adj < g.nodeCount + o.nodeCount
  obtain ⟨c, hc, j, part, back, hpart, rfl⟩ | ⟨d, hd, -, rfl⟩ := hv
  · -- The adjacent node of a part is the base node of the opposite part.
    have hadj : (c.view g j part back).adj = (c.view g j part (!back)).base := by
      cases back <;> rfl
    rw [hadj]
    obtain ⟨-, -, hb⟩ | ⟨-, -, hb⟩ | ⟨i, hi, hb, -⟩ := h.base_cases hc hpart (!back)
    · rw [hb]
      exact Nat.lt_add_right _ (h.node_lt hg hc).1
    · rw [hb]
      exact Nat.lt_add_right _ (h.node_lt hg hc).2
    · rw [hb]
      exact (h.le_along hc hi).2
  · exact Nat.lt_add_right _ (hg.touches_lt hd.1.touches.2)

omit [Scalar K] in
/-- The id of a part leads back to its place. -/
theorem index?_view (h : Spliced g o cs) (hc : c ∈ cs) {j : Nat} {part : Part K}
    (hpart : c.parts[j]? = some part) (back : Bool) :
    o.index? (c.view g j part back).edge = some (c.place j back) := by
  have hid := h.laid.index?_id hc hpart back
  rwa [h.firstNode_eq, h.firstEdge_eq] at hid

omit [Scalar K] in
/-- The id of a road is no id of a part. -/
theorem index?_road (h : Spliced g o cs) {d : DirectedEdge} (hd : g.HasDirection d) :
    o.index? d.edge = none := by
  obtain ⟨r, hr, -⟩ := hd
  refine Overlay.index?_of_lt ?_
  rw [h.firstEdge_eq]
  exact (Array.getElem?_eq_some_iff.1 hr).1

omit [Scalar K] in
theorem nodup_placesAt (h : Spliced g o cs) (n : NodeId) : (o.placesAt n).Nodup := by
  unfold placesAt
  split
  · rename_i hn
    obtain ⟨c, hc, i, hi, rfl⟩ := h.laid.exists_of_isVirtualNode hn
    rw [h.laid.leaving_virtual hc hi]
    have hne : c.place i true ≠ c.place (i + 1) false := fun heq =>
      absurd (Chain.place_inj heq).1 (Nat.succ_ne_self i).symm
    simpa using hne
  · cases hdelta : o.delta? n with
    | none => simp
    | some d => simpa using (h.additions n d hdelta).1

end Overlay.Spliced

end RoadSplice

/-
  RoadSplice.Proofs.Query.Shapes — cutting a road neither loses nor reorders its shape.

  The pieces of a road begin and end where their nodes lie.  One after the other they give the
  shape of the road, in its own direction, with nothing but the points of snaps between two of its
  points inserted; so each point of the road is there once, and in its place.
-/
import RoadSplice.Proofs.Overlay.Found
import RoadSplice.Proofs.Overlay.OneRoad
import RoadSplice.Proofs.Query.Edges

namespace RoadSplice

open Overlay Splicing

variable {K : Type} [Scalar K] {g : RoadGraph K} {o : Overlay K} {cs : List (Chain K)}
  {c : Chain K} {d : DirectedEdge} {snaps final : Array (Snap K)} {shape : Polyline K}
  {start last : Point K} {ss : List (Snap K)} {n : NodeId}

/-! ## §1. Where nodes lie. -/

omit [Scalar K] in
theorem Polyline.ends_reverse (s : Polyline K) :
    s.reverse.first? = s.last? ∧ s.reverse.last? = s.first? :=
  ⟨List.head?_reverse, List.getLast?_reverse⟩

/-- The shape of a road begins and ends where its nodes lie. -/
theorem RoadGraph.WellFormed.towers (hg : g.WellFormed) (hd : g.HasDirection d)
    (hshape : d.shape g = .ok shape) :
    g.nodes[d.base]? = shape.first? ∧ g.nodes[d.adj]? = shape.last? := by
  obtain ⟨ends, -, hfull⟩ := except_bind.1 hshape
  obtain rfl := Except.ok.inj hfull
  have hbase := hg.touches_lt hd.touches.1
  have hadj := hg.touches_lt hd.touches.2
  obtain ⟨r, hr, hdir⟩ := hd
  -- The shape is stored from the first node to the second one.
  have hstored : ∀ s : Polyline K, s.points =
      (g.nodes[r.a]?.getD RoadGraph.origin :: r.pillars.points) ++
        [g.nodes[r.b]?.getD RoadGraph.origin] →
      s.first? = some (g.nodes[r.a]?.getD RoadGraph.origin) ∧
        s.last? = some (g.nodes[r.b]?.getD RoadGraph.origin) := fun s hs => by
    unfold Polyline.first? Polyline.last?
    rw [hs]
    exact ⟨rfl, List.getLast?_concat⟩
  show _ = (g.fullGeometry d.edge d.reverse).first? ∧ _ = (g.fullGeometry d.edge d.reverse).last?
  unfold RoadGraph.fullGeometry
  rw [hr]
  rcases hdir with heq | heq
  · rw [heq] at hbase hadj ⊢
    obtain ⟨hfirst, hlast⟩ := hstored ⟨_, g.is3d⟩ rfl
    refine ⟨Eq.trans ?_ hfirst.symm, Eq.trans ?_ hlast.symm⟩
    · simp [Array.getElem?_eq_getElem hbase]
    · simp [Array.getElem?_eq_getElem hadj]
  · rw [heq] at hbase hadj ⊢
    obtain ⟨hfirst, hlast⟩ := hstored ⟨_, g.is3d⟩ rfl
    obtain ⟨hswap, hswap'⟩ := Polyline.ends_reverse ⟨_, g.is3d⟩
    refine ⟨Eq.trans ?_ (hswap.trans hlast).symm, Eq.trans ?_ (hswap'.trans hfirst).symm⟩
    · simp [Array.getElem?_eq_getElem hbase]
    · simp [Array.getElem?_eq_getElem hadj]

omit [Scalar K] in
/-- Nodes of the graph below lie where they do there. -/
theorem QueryGraph.coordinate?_of_lt {q : QueryGraph K} {n : NodeId}
    (h : n < q.overlay.firstNode) : q.coordinate? n = q.base.nodes[n]? := by
  unfold coordinate?
  rw [Overlay.node?_of_lt h]

omit [Scalar K] in
/-- The virtual nodes of a chain lie at its points. -/
theorem Overlay.Spliced.coordinate?_virtual (h : Spliced g o cs) (hc : c ∈ cs) {j : Nat}
    (hj : j < c.points.length) :
    (QueryGraph.ofOverlay g o).coordinate? (c.along g (j + 1)) = some c.points[j] := by
  have hnode := h.laid.node?_virtual hc hj
  rw [h.firstNode_eq] at hnode
  unfold QueryGraph.coordinate?
  rw [show (QueryGraph.ofOverlay g o).overlay.node? (c.along g (j + 1)) = _ from hnode]

/-- **The nodes of a chain** lie at the ends of the shape and at the points of the chain. -/
theorem Overlay.Spliced.coordinate?_along (h : Spliced g o cs) (hg : g.WellFormed) (hc : c ∈ cs)
    (ht : Threads g snaps final n c shape start last ss) {j : Nat}
    (hj : j ≤ c.points.length + 1) :
    (QueryGraph.ofOverlay g o).coordinate? (c.along g j) =
      (start :: (c.points ++ [last]))[j]? := by
  have hreal : ∀ m, m < g.nodeCount →
      (QueryGraph.ofOverlay g o).coordinate? m = g.nodes[m]? := fun m hm =>
    QueryGraph.coordinate?_of_lt (h.firstNode_eq.symm ▸ hm)
  have htowers := hg.towers (h.direction c hc) ht.shape_eq
  have hends := h.node_lt hg hc
  -- The real nodes lie at the ends of the shape, the virtual ones at the points of the chain.
  cases j with
  | zero =>
    show (QueryGraph.ofOverlay g o).coordinate? c.road.base = some start
    rw [hreal _ hends.1, htowers.1, ht.start_eq]
  | succ j =>
    rcases Nat.lt_or_eq_of_le (Nat.le_of_succ_le_succ hj) with hlt | rfl
    · rw [h.coordinate?_virtual hc hlt]
      simp [List.getElem?_append_left hlt]
    · rw [show c.along g (c.points.length + 1) = c.road.adj from c.node_last _,
        hreal _ hends.2, htowers.2, ht.last_eq]
      simp

/-! ## §2. The parts of a chain. -/

/-- The closing part takes the rest of the shape. -/
theorem closing_points {a : Anchor K} (hlong : 2 ≤ shape.length) (hnext : a.next < shape.length)
    (hlast : shape.last? = some last) :
    (partTo shape a false last (shape.length - 2)).shape.points =
      a.point :: shape.points.drop a.next := by
  have hpoints : (pieceShape shape a false last (shape.length - 2)).points =
      a.point :: (shape.slice a.next (shape.length - 2 + 1) ++ [last]) :=
    pieceShape_points (by omega) (by omega) false last
  unfold partTo
  rw [hpoints]
  congr 1
  -- The last point is added apart, behind the slice.
  have hwhole : shape.points.dropLast ++ [last] = shape.points :=
    List.dropLast_append_getLast? last hlast
  have hlen : shape.points.dropLast.length = shape.length - 1 := List.length_dropLast
  have hstop : shape.length - 2 + 1 = shape.points.length - 1 := by
    have : shape.points.length = shape.length := rfl
    omega
  unfold Polyline.slice
  rw [hstop, ← List.dropLast_eq_take]
  conv_rhs => rw [← hwhole]
  rw [List.drop_append_of_le_length (by omega)]

/-- **A part leads from its node to the next one.** -/
theorem part_ends (ht : Threads g snaps final n c shape start last ss)
    (hdrawn : Drawn shape (baseAnchor c.road start) ss) {j : Nat} {part : Part K}
    (hpart : c.parts[j]? = some part) :
    part.shape.first? = (start :: (c.points ++ [last]))[j]? ∧
      part.shape.last? = (start :: (c.points ++ [last]))[j + 1]? := by
  have hpoints : c.points = (stopsFrom shape (baseAnchor c.road start) (n + c.start) ss).map
      (·.point) := ht.points_eq
  rw [ht.parts_eq] at hpart
  rcases getElem?_snoc.1 hpart with hstop | ⟨hj, rfl⟩
  · rw [List.getElem?_map] at hstop
    obtain ⟨st, hst, rfl⟩ := Option.map_eq_some_iff.1 hstop
    obtain ⟨hfirst, hlast⟩ := stops_ends hdrawn hst
    have hpoint : c.points[j]? = some st.point := by
      rw [ht.points_eq, List.getElem?_map, hst]
      rfl
    have hlt : j < c.points.length := (List.getElem?_eq_some_iff.1 hpoint).1
    refine ⟨hfirst.trans ?_, hlast.trans ?_⟩
    · rw [← hpoints, ← List.cons_append, List.getElem?_append_left (Nat.lt_succ_of_lt hlt)]
      rfl
    · rw [List.getElem?_cons_succ, List.getElem?_append_left hlt, hpoint]
  · -- The closing part begins at the last stop and ends at the last point of the shape.
    have hlen : j = c.points.length := by
      rw [hj, List.length_map, ht.points_eq, List.length_map]
    have hlast := lastAnchor_point shape (baseAnchor c.road start) (n + c.start) ss
    have hstops : (stopsFrom shape (baseAnchor c.road start) (n + c.start) ss).length =
        c.points.length := by rw [hpoints, List.length_map]
    rw [← hpoints, hstops] at hlast
    rw [hlen]
    refine ⟨?_, ?_⟩
    · rw [← List.cons_append, List.getElem?_append_left (Nat.lt_succ_self _)]
      exact hlast
    · refine Eq.trans (b := some last) List.getLast?_concat ?_
      simp

/-! ## §3. The parts one after the other. -/

/-- Parts one after the other, each without the point that the one before it ends with. -/
def joinParts : List (Part K) → List (Point K)
  | [] => []
  | p :: ps => p.shape.points ++ ps.flatMap (·.shape.points.tail)

omit [Scalar K] in
theorem joinParts_eq {parts : List (Part K)} {part : Part K} (hfirst : parts[0]? = some part)
    (hstart : part.shape.first? = some start) :
    joinParts parts = start :: parts.flatMap (·.shape.points.tail) := by
  cases parts with
  | nil => simp at hfirst
  | cons p ps =>
    obtain rfl : p = part := Option.some.inj hfirst
    unfold joinParts
    rw [List.flatMap_cons, ← List.cons_append, List.cons_head?_tail hstart]

/-- **The parts give the shape back**, with the points of the stops on segments inserted. -/
theorem joinParts_parts (ht : Threads g snaps final n c shape start last ss)
    (hin : InOrder shape (baseAnchor c.road start) ss) :
    joinParts c.parts =
      shape.withAdded ((stopsAlong n c shape start ss).map (·.snap)) := by
  have hnext := lastAnchor_next (n := n + c.start) hin (show 1 < shape.length from ht.long)
  have hclosing := closing_points ht.long hnext ht.last_eq
  have htails := stops_tails (n := n + c.start) hin (show _ = 0 + 1 from rfl)
  obtain ⟨part, hpart⟩ : ∃ part, c.parts[0]? = some part := by
    rw [← List.head?_eq_getElem?, ht.parts_eq]
    exact ⟨_, List.head?_eq_some_head (by simp)⟩
  rw [joinParts_eq hpart ((part_ends ht hin.drawn hpart).1.trans rfl), withAdded_eq ht.start_eq,
    ht.parts_eq, List.flatMap_append, List.flatMap_map]
  show start :: (_ ++ [_].flatMap _) = _
  rw [List.flatMap_singleton, hclosing]
  exact congrArg _ htails

/-! ## §4. Cut roads keep their shapes. -/

/-- **A piece begins and ends where its nodes lie.** -/
structure Piece.Ends (q : QueryGraph K) (p : Piece K) : Prop where
  base : ∃ a, q.coordinate? p.base = some a ∧ p.shape.first? = some a
  adj : ∃ a, q.coordinate? p.adj = some a ∧ p.shape.last? = some a

/-- **The pieces of chains that can be drawn** begin and end where their nodes lie. -/
theorem Overlay.Spliced.piece_ends (h : Spliced g o cs) (hg : g.WellFormed)
    (hdrawn : ∀ c ∈ cs, ∃ shape start last ss,
      Threads g snaps final g.nodeCount c shape start last ss ∧
        Drawn shape (baseAnchor c.road start) ss) {i : Nat} {p : Piece K}
    (hp : o.pieces[i]? = some p) : p.Ends (QueryGraph.ofOverlay g o) := by
  obtain ⟨c, hc, j, part, back, hpart, rfl, rfl⟩ := h.laid.exists_of_piece? hp
  obtain ⟨shape, start, last, ss, ht, hdrawn⟩ := hdrawn c hc
  obtain ⟨hfirst, hlast⟩ := part_ends ht hdrawn hpart
  have hj : j < c.points.length + 1 :=
    h.laid.parts_length c hc ▸ (List.getElem?_eq_some_iff.1 hpart).1
  have hbase := h.coordinate?_along hg hc ht (Nat.le_of_lt hj)
  have hadj := h.coordinate?_along hg hc ht hj
  have hsome : ∀ i, i ≤ c.points.length + 1 →
      ∃ a, (start :: (c.points ++ [last]))[i]? = some a := fun i hi =>
    ⟨_, List.getElem?_eq_getElem (by simpa using Nat.lt_succ_of_le hi)⟩
  obtain ⟨a, ha⟩ := hsome j (Nat.le_of_lt hj)
  obtain ⟨b, hb⟩ := hsome (j + 1) hj
  rw [h.firstNode_eq]
  -- On the way back the shape is turned round, and so are the nodes.
  cases back with
  | false => exact ⟨⟨a, hbase.trans ha, hfirst.trans ha⟩, ⟨b, hadj.trans hb, hlast.trans hb⟩⟩
  | true =>
    obtain ⟨hswap, hswap'⟩ := part.shape.ends_reverse
    exact ⟨⟨b, hadj.trans hb, hswap.trans (hlast.trans hb)⟩,
      ⟨a, hbase.trans ha, hswap'.trans (hfirst.trans ha)⟩⟩

/-- **The snaps of a chain**: for each virtual node the one that became it, as it was turned. -/
structure Chain.Marks (g : RoadGraph K) (snaps final : Array (Snap K)) (c : Chain K)
    (ss : List (Snap K)) : Prop where
  length_eq : ss.length = c.points.length
  became : ∀ (j : Nat) s, ss[j]? = some s → s.closest = some c.road ∧ s.point = c.points[j]? ∧
    ∃ (i : Nat) (s₀ : Snap K), snaps[i]? = some s₀ ∧ s₀.position = s.position ∧
      final[i]? = some (s.setNode (c.along g (j + 1)))

/-- **A chain keeps the shape of its road**: in the own direction of the road, its snaps never go
back, and its parts one after the other are the shape with the points of snaps inserted. -/
structure Chain.KeepsShape (g : RoadGraph K) (snaps final : Array (Snap K)) (c : Chain K)
    (shape : Polyline K) (ss : List (Snap K)) : Prop where
  shape_eq : c.road.shape g = .ok shape
  direction : Snap.runsBackwards g c.road = .ok false
  marks : c.Marks g snaps final ss
  in_order : ss.Pairwise (NotBehind shape)
  joined : joinParts c.parts = shape.withAdded ss

/-- The stops of a chain are its virtual nodes. -/
theorem marks_stops (ht : Threads g snaps final g.nodeCount c shape start last ss)
    (hin : InOrder shape (baseAnchor c.road start) ss)
    (hclosest : ∀ s ∈ ss, s.closest = some c.road) :
    c.Marks g snaps final ((stopsAlong g.nodeCount c shape start ss).map (·.snap)) := by
  refine ⟨by rw [ht.points_eq, List.length_map, List.length_map], fun j s hs => ?_⟩
  rw [List.getElem?_map] at hs
  obtain ⟨st, hst, rfl⟩ := Option.map_eq_some_iff.1 hs
  have hmem : st ∈ stopsAlong g.nodeCount c shape start ss := List.mem_of_getElem? hst
  obtain ⟨i, s₀, hs₀, hf, hfinal⟩ := ht.placed j st hst
  have hlt : j < c.points.length := by
    rw [ht.points_eq, List.length_map]
    exact (List.getElem?_eq_some_iff.1 hst).1
  refine ⟨hclosest st.snap ?_, ?_, i, s₀, hs₀, hf.prepared.position_eq.symm, ?_⟩
  · exact (stops_sublist shape _ _ ss).subset (List.mem_map_of_mem hmem)
  · rw [stops_point hin hmem, ht.points_eq, List.getElem?_map, hst]
    rfl
  · rw [hfinal, show c.along g (j + 1) = _ from c.node_virtual _ hlt, Nat.add_assoc]

/-- On the equator positions are told apart. -/
theorem pillarsApart_cutRoad (word : Nat) : PillarsApart (cutRoad word) cutSnaps := by
  intro i u hu _ d shape p hd hshape hp
  obtain ⟨hcases, hclosest⟩ := closest_levelRoad 0 (.inl rfl) (.inr rfl) hu
  obtain rfl := Option.some.inj (hclosest.symm.trans hd)
  obtain rfl := Except.ok.inj ((shape_onlyRoad _ _ _ _ _).symm.trans hshape)
  have hinner : (levelShape 0).get? u.wayIndex = some (Exact.onParallel 0 1) := by
    rcases hcases with rfl | rfl <;> rfl
  obtain rfl := Option.some.inj (hinner.symm.trans hp)
  exact Exact.separates_of_cos_ne (by simp) _

end RoadSplice

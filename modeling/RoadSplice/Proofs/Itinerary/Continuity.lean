/-
  RoadSplice.Proofs.Itinerary.Continuity — routes and journeys are drawn without gaps.

  Whatever the weights are, what a search or a hierarchy answers is a path over roads and pieces.
  The graph finds each of them again in the direction of travel, as an edge that spans its nodes, so
  the path has a line along it.  A journey puts the lines of its legs together in the same way: each
  leg but the first leaves out its first point, which is the last one of the leg before it.
-/
import RoadSplice.Itinerary.Basic
import RoadSplice.Proofs.Query.Spanned

namespace RoadSplice

variable {K : Type} [Scalar K] {g : RoadGraph K} {o : Overlay K} {l : Layered K} {s t : NodeId}
  {p : Path K}

open QueryGraph (ofOverlay marking)

/-! ## §1. What is answered. -/

/-- **A graph in use**: the road graph or a query graph on the overlay, with any flag words and any
marks. -/
inductive Layered.InUse (g : RoadGraph K) (o : Overlay K) : Layered K → Prop
  | plain (words : Array Word) : InUse g o (.plain { g with words := words })
  | spliced (words : Array Word) (marks : Nat → Bool) (tracked : List Nat) :
      InUse g o (.spliced (marking { g with words := words } o marks tracked))

/-- **A path that is answered** on a graph: by a search, by a hierarchy of the road graph, or by
such a hierarchy as it is viewed through the query graph.  The hierarchy may have been contracted
while the flag words were others. -/
inductive Layered.Answers (g : RoadGraph K) (s t : NodeId) : Layered K → Path K → Prop
  | searched {l : Layered K} {w : Weighting K} {p : Path K} : dijkstra l w s t = some p →
      Answers g s t l p
  | climbed {g' : RoadGraph K} {words : Array Word} {w : Weighting K} {h : Hierarchy K}
      {p : Path K} : contract { g with words := words } w = .ok h →
        h.routing.route s t = .ok (some p) → Answers g s t (.plain g') p
  | viewed {q : QueryGraph K} {words : Array Word} {w w' : Weighting K} {h : Hierarchy K}
      {v : HierarchyView K} {p : Path K} : contract { g with words := words } w = .ok h →
        HierarchyView.make h.routing q w' = .ok v → v.routing.route s t = .ok (some p) →
          Answers g s t (.spliced q) p

/-- **A graph whose edges span their nodes.** -/
inductive Layered.Spanning : Layered K → Prop
  | plain {g : RoadGraph K} : g.WellFormed → Spanning (.plain g)
  | spliced {q : QueryGraph K} : q.Spanning → Spanning (.spliced q)

/-- A hop that a route may make: over a road, or over a piece of the overlay. -/
def Layered.RouteHop : Layered K → Hop → Prop
  | .plain g, x => g.RoadHop x
  | .spliced q, x => q.base.RoadHop x ∨ q.PieceHop x

omit [Scalar K] in
/-- Every graph in use spans its nodes, if the graph of the overlay does. -/
theorem Layered.InUse.spanning (hl : l.InUse g o) (hg : g.WellFormed)
    (ho : (ofOverlay g o).Spanning) : l.Spanning := by
  cases hl with
  | plain words => exact .plain (hg.of_touches rfl rfl fun _ _ => Iff.rfl)
  | spliced words marks tracked => exact .spliced (ho.remarked words marks tracked)

omit [Scalar K] in
/-- A path along edges makes the hops of these edges. -/
theorem Path.Follows.hops {G : Type} [Network G K] {n : G} {vs : List (EdgeView K)}
    (h : p.Follows n s t vs) {R : Hop → Prop}
    (hR : ∀ m, ∀ v ∈ Network.edges n m, R ⟨v.base, v.adj, v.edge⟩) : p.Hops R s t := by
  refine ⟨vs.map fun v => ⟨v.base, v.adj, v.edge⟩, Joined.map.2 h.joined, ?_, ?_, fun x hx => ?_⟩
  · rw [h.nodes, List.map_map]
    rfl
  · rw [h.edges, List.map_map]
    rfl
  · obtain ⟨v, hv, rfl⟩ := List.mem_map.1 hx
    exact hR _ v (h.offered v hv)

namespace Layered.Spanning

/-- What a node offers begins there. -/
theorem base_of_mem (hl : l.Spanning) {n : NodeId} {v : EdgeView K}
    (hv : v ∈ Network.edges l n) : v.base = n := by
  cases hl with
  | plain hg => exact (RoadGraph.adj_lt_of_mem_edges hg hv).1
  | spliced hq => exact hq.toSound.base_of_mem hv

/-- What a node offers is a road or a piece. -/
theorem routeHop_of_mem (hl : l.Spanning) {n : NodeId} {v : EdgeView K}
    (hv : v ∈ Network.edges l n) : l.RouteHop ⟨v.base, v.adj, v.edge⟩ := by
  have hroad : ∀ {g : RoadGraph K}, g.WellFormed → v ∈ g.edges n →
      g.RoadHop ⟨v.base, v.adj, v.edge⟩ := fun hg hv => by
    obtain ⟨d, hd, -, rfl⟩ := (RoadGraph.mem_edges hg).1 hv
    exact ⟨d, hd.1, rfl⟩
  cases hl with
  | plain hg => exact hroad hg hv
  | spliced hq =>
    obtain ⟨i, -, hview⟩ | hv := QueryGraph.mem_edges_cases hv
    · obtain ⟨p, hp, rfl⟩ := Option.map_eq_some_iff.1 hview
      exact .inr ⟨i, p, hp, .inl rfl⟩
    · exact .inl (hroad hq.base hv)

/-- **Every hop of a route is found again** as an edge that spans its nodes. -/
theorem spanned (hl : l.Spanning) {x : Hop} (hx : l.RouteHop x) : x.Spanned l := by
  cases hl with
  | plain hg =>
    obtain ⟨d, hd, hfound, hbase, hadj⟩ := RoadGraph.RoadHop.exists_edge hx
    obtain ⟨hfirst, hlast⟩ := hg.view_ends hd
    exact ⟨_, hfound, hbase, hadj, hfirst, hlast⟩
  | spliced hq =>
    obtain ⟨v, hv, hbase, hadj, hspans⟩ := hx.elim hq.spanned_road hq.spanned_piece
    exact ⟨v, hv, hbase, hadj, hspans.base, hspans.adj⟩

/-- Every node lies somewhere. -/
theorem exists_coordinate (hl : l.Spanning) {n : NodeId} (hn : n < Network.nodeCount l) :
    ∃ a, Network.coordinate? l n = some a := by
  cases hl with
  | plain hg => exact ⟨_, Array.getElem?_eq_getElem hn⟩
  | @spliced q hq =>
    show ∃ a, q.coordinate? n = some a
    have hn : n < q.overlay.firstNode + q.overlay.nodes.size := hq.firstNode_eq ▸ hn
    by_cases hreal : n < q.overlay.firstNode
    · have hlt : n < q.base.nodeCount := hq.firstNode_eq ▸ hreal
      exact ⟨_, (QueryGraph.coordinate?_of_lt hreal).trans (Array.getElem?_eq_getElem hlt)⟩
    · have hlt := (Nat.sub_lt_iff_lt_add' (Nat.le_of_not_lt hreal)).2 hn
      have hnode : q.overlay.node? n = some q.overlay.nodes[n - q.overlay.firstNode] := by
        rw [Overlay.node?, if_neg hreal, Array.getElem?_eq_getElem hlt]
      rw [QueryGraph.coordinate?, hnode]
      exact ⟨_, rfl⟩

end Layered.Spanning

/-! ## §2. Lines along paths. -/

/-- **Whatever is answered is a path over roads and pieces.** -/
theorem Layered.Answers.hops (h : Layered.Answers g s t l p) (hl : l.InUse g o)
    (hspans : l.Spanning) : p.Hops l.RouteHop s t := by
  cases h with
  | searched hpath =>
    obtain ⟨vs, hfollows⟩ := exists_follows (fun n v hv => hspans.base_of_mem hv) hpath
    exact hfollows.hops fun n v hv => hspans.routeHop_of_mem hv
  | climbed hcontract hroute =>
    cases hl with
    | plain words => exact hops_of_route hcontract hroute
  | viewed hcontract hmake hroute =>
    cases hl with
    | spliced words marks tracked =>
      cases hspans with
      | spliced hq => exact hops_of_view_route hcontract hq.toSound hmake hroute

/-- **What is answered can be drawn**: the path leads from node to node, and has a line along it. -/
theorem Layered.Answers.continuous (h : Layered.Answers g s t l p) (hl : l.InUse g o)
    (hspans : l.Spanning) (hs : s < Network.nodeCount l) :
    p.nodes.head? = some s ∧ p.nodes.getLast? = some t ∧ p.Continuous l := by
  have hhops := h.hops hl hspans
  obtain ⟨a, ha⟩ := hspans.exists_coordinate hs
  refine ⟨?_, ?_, hhops.continuous (fun x hx => hspans.spanned hx) ha⟩
  · obtain ⟨hops, -, hnodes, -⟩ := hhops
    rw [hnodes]
    rfl
  · obtain ⟨hops, hjoined, hnodes, -⟩ := hhops
    rw [hnodes]
    exact hjoined.getLast?_eq

/-! ## §3. Lines of journeys. -/

/-- Nodes lie where they do on the overlay, whatever is marked. -/
theorem Layered.InUse.coordinate? (hl : l.InUse g o) (ho : (ofOverlay g o).Spanning)
    {n : NodeId} {a : Point K} (ha : Network.coordinate? l n = some a) :
    (ofOverlay g o).coordinate? n = some a := by
  cases hl with
  | plain words =>
    have ha : g.nodes[n]? = some a := ha
    have hlt : n < g.nodeCount := (Array.getElem?_eq_some_iff.1 ha).1
    exact (QueryGraph.coordinate?_of_lt (ho.firstNode_eq.symm ▸ hlt)).trans ha
  | spliced words marks tracked => exact ha

/-- **A leg as it is drawn**: on a graph in use a path between its ends is answered, and the shape
is the geometry of this path. -/
def Leg.DrawnAs (g : RoadGraph K) (o : Overlay K) (leg : Leg K) (shape : Polyline K) : Prop :=
  ∃ (l : Layered K) (p : Path K), l.InUse g o ∧ leg.source < Network.nodeCount l ∧
    Layered.Answers g leg.source leg.target l p ∧ p.geometry l = .ok shape

/-- The shape of a leg leads from its source to its target. -/
theorem Leg.DrawnAs.ends (ho : (ofOverlay g o).Spanning) {leg : Leg K} {shape : Polyline K}
    (h : leg.DrawnAs g o shape) :
    (∃ a, (ofOverlay g o).coordinate? leg.source = some a ∧ shape.points.head? = some a) ∧
      ∃ b, (ofOverlay g o).coordinate? leg.target = some b ∧ shape.points.getLast? = some b := by
  obtain ⟨l, p, hl, hsource, hanswers, hgeometry⟩ := h
  obtain ⟨hhead, hlast, shapes, line, hline⟩ :=
    hanswers.continuous hl (hl.spanning ho.base ho) hsource
  obtain rfl : line = shape := Except.ok.inj (hline.geometry_eq.symm.trans hgeometry)
  obtain ⟨n, a, hn, ha, hfirst⟩ := hline.first_eq
  obtain ⟨m, b, hm, hb, hend⟩ := hline.last_eq
  obtain rfl : n = leg.source := Option.some.inj (hn.symm.trans hhead)
  obtain rfl : m = leg.target := Option.some.inj (hm.symm.trans hlast)
  exact ⟨⟨a, hl.coordinate? ho ha, hfirst⟩, b, hl.coordinate? ho hb, hend⟩

namespace Itinerary

variable {legs : List (Leg K × Polyline K)} {place : NodeId → Option (Point K)} {it : Itinerary K}

/-- The journey after some legs with their shapes. -/
def ofLegs (stops : List (Stop K)) (legs : List (Leg K × Polyline K)) : Itinerary K :=
  legs.foldl (fun it x => it.push x.1 x.2) (start stops)

/-- **A line through the ends of legs**: it passes the nodes in order, and has the shape of each leg
as a stretch that begins where the one before it ends. -/
structure LineThrough (place : NodeId → Option (Point K)) (nodes : List NodeId)
    (shapes : List (Polyline K)) (it : Itinerary K) : Prop where
  length_eq : it.points.length = 1 + (shapes.map (·.length - 1)).sum
  passes : ∀ (i : Nat) n, nodes[i]? = some n → ∃ a, place n = some a ∧
    it.points[offset (shapes.map (·.points)) i]? = some a.location
  stretch : ∀ (i : Nat) shape, shapes[i]? = some shape →
    (it.points.drop (offset (shapes.map (·.points)) i)).take shape.length =
      shape.points.map (·.location)

/-- **More legs** on a way that has begun each leave out their first point. -/
theorem points_foldl_push (h : it.points ≠ []) (legs : List (Leg K × Polyline K)) :
    (legs.foldl (fun it x => it.push x.1 x.2) it).points =
      it.points ++ ((legs.map (·.2.points)).flatMap (·.tail)).map (·.location) := by
  induction legs generalizing it with
  | nil => simp
  | cons x legs ih =>
    have hpush : (it.push x.1 x.2).points = it.points ++ x.2.points.tail.map (·.location) := by
      rw [← List.drop_one]
      unfold push
      rw [if_neg (by simpa using h)]
    have hne : (it.push x.1 x.2).points ≠ [] := by
      rw [hpush]
      exact List.append_ne_nil_of_left_ne_nil h _
    rw [List.foldl_cons, ih hne, hpush, List.map_cons, List.flatMap_cons, List.map_append,
      List.append_assoc]

/-- **The points of a journey** are the shapes of its legs put together. -/
theorem points_ofLegs (stops : List (Stop K)) {x : Leg K × Polyline K} {a : Point K}
    (ha : x.2.points.head? = some a) (legs : List (Leg K × Polyline K)) :
    (ofLegs stops (x :: legs)).points =
      (threaded a ((x :: legs).map (·.2.points))).map (·.location) := by
  have hpush : ((start stops : Itinerary K).push x.1 x.2).points =
      x.2.points.map (·.location) := rfl
  have hne : ((start stops : Itinerary K).push x.1 x.2).points ≠ [] := by
    rw [hpush]
    intro hnil
    rw [List.map_eq_nil_iff.1 hnil] at ha
    cases ha
  rw [ofLegs, List.foldl_cons, points_foldl_push hne, hpush, List.map_cons, threaded_cons ha,
    List.map_append]

/-- **The line of a journey**: where the shapes of legs lead from node to node, the journey passes
all of them. -/
theorem lineThrough_ofLegs (stops : List (Stop K)) (hne : legs ≠ [])
    (hjoined : Joined (·.1.source) (·.1.target) s legs t)
    (hbase : ∀ x ∈ legs, ∃ a, place x.1.source = some a ∧ x.2.points.head? = some a)
    (hadj : ∀ x ∈ legs, ∃ b, place x.1.target = some b ∧ x.2.points.getLast? = some b) :
    (ofLegs stops legs).LineThrough place (s :: legs.map (·.1.target)) (legs.map (·.2)) := by
  obtain ⟨a, ha, hpoints⟩ : ∃ a, place s = some a ∧ (ofLegs stops legs).points =
      (threaded a (legs.map (·.2.points))).map (·.location) := by
    obtain ⟨x, rest, rfl⟩ := List.exists_cons_of_ne_nil hne
    obtain ⟨a, ha, hhead⟩ := hbase x List.mem_cons_self
    obtain rfl : x.1.source = s := hjoined.1
    exact ⟨a, ha, points_ofLegs stops hhead rest⟩
  have hfirst : ∀ x ∈ legs, x.2.points.head? = place x.1.source := fun x hx => by
    obtain ⟨a, ha, hhead⟩ := hbase x hx
    exact hhead.trans ha.symm
  have hlast : ∀ x ∈ legs, x.2.points.getLast? = place x.1.target := fun x hx => by
    obtain ⟨b, hb, hend⟩ := hadj x hx
    exact hend.trans hb.symm
  have hpasses := getElem?_threaded hjoined hfirst hlast ha fun x hx => by
    obtain ⟨b, hb, -⟩ := hadj x hx
    exact ⟨b, hb⟩
  have hshapes : (legs.map (·.2)).map (·.points) = legs.map (·.2.points) := List.map_map
  refine ⟨?_, fun i n hn => ?_, fun i shape hs => ?_⟩
  · rw [hpoints, List.length_map, length_threaded, offset, List.take_length, Nat.add_comm,
      ← hshapes, List.map_map]
    rfl
  · obtain ⟨c, hc, hat⟩ := hpasses i n hn
    refine ⟨c, hc, ?_⟩
    rw [hpoints, hshapes, List.getElem?_map, hat]
    rfl
  · -- The last leg ends somewhere, so the shapes are lists in a row.
    obtain ⟨i', hi'⟩ := List.mem_iff_getElem?.1 (List.mem_of_getLast? hjoined.getLast?_eq)
    obtain ⟨b, hb, -⟩ := hpasses i' t hi'
    have hlists : Joined List.head? List.getLast? (some a) (legs.map (·.2.points)) (some b) := by
      rw [← ha, ← hb, Joined.map]
      exact hjoined.through place fun x hx => ⟨hfirst x hx, hlast x hx⟩
    have hread : (legs.map (·.2.points))[i]? = some shape.points := by
      rw [← hshapes, List.getElem?_map, hs]
      rfl
    rw [hpoints, hshapes, ← List.map_drop, ← List.map_take]
    exact congrArg _ (take_drop_threaded hlists hread)

end Itinerary

/-! ## §4. Routes and journeys. -/

open Splicing (PillarsApart LoopsInPlace)

omit [Scalar K] in
/-- A query graph that has just been opened is in use. -/
theorem Layered.InUse.opened (ho : o.Fresh) : Layered.InUse g o (.spliced (ofOverlay g o)) := by
  rw [QueryGraph.ofOverlay_eq_marking ho]
  exact .spliced g.words _ _

/-- Roads between different nodes are no loops. -/
theorem loopsInPlace_levelRoad (a : ℝ) (distance : Exact) (word : Nat) {s t : Snap Exact}
    (hs : s = Splicing.atInner a ∨ s = Splicing.between a)
    (ht : t = Splicing.atInner a ∨ t = Splicing.between a) :
    LoopsInPlace (Splicing.levelRoad a distance word) #[s, t] :=
  Splicing.loopsInPlace_onlyRoad fun _ _ hu => (Splicing.closest_levelRoad a hs ht hu).2

theorem computed_levelRoad (a : ℝ) (distance : Exact) (word : Nat) {s t : Snap Exact}
    (hs : s = Splicing.atInner a ∨ s = Splicing.between a)
    (ht : t = Splicing.atInner a ∨ t = Splicing.between a) (i : Nat) (u : Snap Exact)
    (hu : (#[s, t] : Array (Snap Exact))[i]? = some u) :
    u.Computed (Splicing.levelRoad a distance word) := by
  obtain ⟨hcases, hclosest⟩ := Splicing.closest_levelRoad a hs ht hu
  obtain ⟨p, hp⟩ : ∃ p, u.point = some p := by
    rcases hcases with rfl | rfl <;> exact ⟨_, rfl⟩
  exact (Splicing.found_levelRoad a distance word hs ht).computed hu hclosest hp

section

open SpeedWeighting (openWord carWithoutTurns)

/-- A leg of which nothing is told but its ends. -/
noncomputable def Leg.between (s t : NodeId) : Leg Exact := ⟨s, t, 0, 0, Millis.zero, 0, 0, none⟩

end

/-! ## §5. Where lines break. -/

/-- A weighting that opens the edges whose shapes are points, and no others. -/
noncomputable def Weighting.onPoints : Weighting Exact where
  edgeWeight v _ := if v.shape.length = 1 then 0 else Scalar.infinity
  edgeMillis _ _ := Millis.zero
  turnWeight _ := 0
  turnMillis _ := Millis.zero
  hasTurnCosts := false

theorem Weighting.onPoints_of_point {v : EdgeView Exact} (hv : v.shape.length = 1) :
    onPoints.edgeWeight v false = .real 0 := (if_pos hv).trans Exact.zero_eq

theorem Weighting.point_of_onPoints {v : EdgeView Exact}
    (hv : (onPoints.edgeWeight v false).IsReal) : v.shape.length = 1 := by
  by_contra hlong
  obtain ⟨x, hx⟩ := hv
  cases (if_neg hlong).symm.trans hx

/-- **An edge whose shape is a point**, between nodes at different places, gives a path without a
line. -/
theorem exists_broken {l : Layered Exact} (hl : l.Opened) {s : NodeId} {v : EdgeView Exact}
    (hv : v ∈ Network.edges l s) (hpoint : v.shape.length = 1)
    (hne : Network.coordinate? l s ≠ Network.coordinate? l v.adj) :
    ∃ p, dijkstra l .onPoints s v.adj = some p ∧ ¬ p.Continuous l := by
  have hnonneg : NonnegWeights l .onPoints := fun {u v c} ⟨e, _, _, hc⟩ => by
    have hzero := Weighting.onPoints_of_point (Weighting.point_of_onPoints ⟨c, hc⟩)
    exact le_of_eq (Exact.real.inj (hzero.symm.trans hc))
  have hstep : EdgeStep l .onPoints s v.adj 0 :=
    ⟨v, hv, rfl, Weighting.onPoints_of_point hpoint⟩
  obtain ⟨p, hp⟩ := exists_path_of_step hl.readable hnonneg rfl hstep
  refine ⟨p, hp, fun ⟨shapes, line, hline⟩ => hne ?_⟩
  -- All edges of the path are open, so their shapes are points.
  obtain ⟨⟨vs, ⟨hjoined, hoffered⟩, hnodes, hedges, htotal⟩, hfinite, -⟩ :=
    (dijkstra_shortestPath hl.readable hnonneg rfl s v.adj).2 p hp
  rw [htotal, walkWeight, Exact.isReal_total] at hfinite
  have hfound : List.Forall₂ (fun e v => Network.edge l e (some v.adj) = .ok v) p.edges vs := by
    rw [hedges, List.forall₂_map_left_iff, List.forall₂_same]
    exact fun u hu => hl.edge_of_mem (hoffered u hu)
  obtain rfl := Except.ok.inj (hline.shapes_eq.symm.trans (Path.shapes_eq_of_found hnodes hfound))
  obtain ⟨n, m, a, hn, hm, ha, hb⟩ := hline.same_place fun shape hshape => by
    obtain ⟨u, hu, rfl⟩ := List.mem_map.1 hshape
    exact Weighting.point_of_onPoints (hfinite _ (List.mem_map_of_mem hu))
  rw [hnodes] at hn hm
  obtain rfl : s = n := Option.some.inj hn
  obtain rfl : v.adj = m := Option.some.inj (hjoined.getLast?_eq.symm.trans hm)
  exact ha.trans hb.symm

/-- **Where two nodes of a chain have a point between them**, a route from the one to the other has
no line. -/
theorem exists_broken_pair {g : RoadGraph Exact} {o : Overlay Exact}
    {snaps final : Array (Snap Exact)} {cs : List (Chain Exact)} {c : Chain Exact} (hg : g.Built)
    (hbuild : Overlay.build g snaps = (.ok o, final)) (h : Overlay.Spliced g o cs) (hc : c ∈ cs)
    {a b : Point Exact} (hpoints : c.points = [a, b]) (hne : a ≠ b) {part : Part Exact}
    (hpart : c.parts[1]? = some part) (hpoint : part.shape.length = 1) :
    ∃ s t p, s < (ofOverlay g o).nodeCount ∧
      dijkstra (Layered.spliced (ofOverlay g o)) .onPoints s t = some p ∧
        ¬ p.Continuous (Layered.spliced (ofOverlay g o)) := by
  have hopened : (Layered.spliced (ofOverlay g o)).Opened := .spliced (.ofBuild hg hbuild)
  have hv : c.view g 1 part false ∈
      Network.edges (Layered.spliced (ofOverlay g o)) (c.along g 1) :=
    (h.mem_edges hg.wellFormed).2 ⟨.inl ⟨c, hc, 1, part, false, hpart, rfl⟩, rfl⟩
  have hlength : c.points.length = 2 := by rw [hpoints]; rfl
  have ha : (ofOverlay g o).coordinate? (c.along g 1) = some a := by
    rw [h.coordinate?_virtual hc (j := 0) (hlength ▸ Nat.two_pos)]
    simp [hpoints]
  have hb : (ofOverlay g o).coordinate? (c.along g 2) = some b := by
    rw [h.coordinate?_virtual hc (j := 1) (hlength ▸ Nat.one_lt_two)]
    simp [hpoints]
  -- The piece between two nodes that lie apart has one point only.
  obtain ⟨p, hp, hbroken⟩ := exists_broken hopened hv hpoint fun heq =>
    hne (Option.some.inj (ha.symm.trans (heq.trans hb)))
  refine ⟨_, _, p, Nat.lt_of_not_le fun hle => ?_, hp, hbroken⟩
  rw [hopened.readable.outside _ hle] at hv
  cases hv

/-- Routes are drawn without gaps over overlays of computed snaps, if the snaps and the start of a
route are as told. -/
def DrawnWhere (given : RoadGraph Exact → Array (Snap Exact) → Prop)
    (starts : Layered Exact → NodeId → Prop) : Prop :=
  ∀ (g : RoadGraph Exact) (snaps final : Array (Snap Exact)) (o : Overlay Exact), g.Built →
    (∀ (i : Nat) s, snaps[i]? = some s → s.Computed g) → given g snaps →
      Overlay.build g snaps = (.ok o, final) → ∀ l s t p, Layered.InUse g o l → starts l s →
        Layered.Answers g s t l p → p.Continuous l

/-- **A node that does not exist** has a route to itself, which has no line. -/
theorem not_drawn_nowhere :
    ¬ DrawnWhere (fun g snaps => PillarsApart g snaps ∧ LoopsInPlace g snaps) fun _ _ => True := by
  intro hall
  have hnone : ∀ (i : Nat) s, (#[] : Array (Snap Exact))[i]? ≠ some s := by simp
  obtain ⟨o, final, hbuild⟩ : ∃ o final,
      Overlay.build (RoadGraph.empty false : RoadGraph Exact) #[] = (.ok o, final) :=
    Splicing.exists_build fun i s hs => absurd hs (hnone i s)
  have hpath : dijkstra (Layered.plain (RoadGraph.empty false : RoadGraph Exact)) .onPoints 0 0 =
      some (Path.single 0) := rfl
  obtain ⟨shapes, line, hline⟩ := hall _ _ _ _ (.empty false) (fun i s hs => absurd hs (hnone i s))
    ⟨fun i s hs => absurd hs (hnone i s), fun i j s t d shape hs => absurd hs (hnone i s)⟩ hbuild _
    0 0 _ (.plain #[]) trivial (.searched hpath)
  obtain ⟨n, a, hn, ha, -⟩ := hline.first_eq
  obtain rfl : 0 = n := Option.some.inj hn
  cases ha

/-- **At an infinite latitude** the piece from a fix behind an inner point to a fix at this point is
a point. -/
theorem not_drawn_at_infinity : ¬ DrawnWhere LoopsInPlace fun l s => s < Network.nodeCount l := by
  intro hall
  have hbuilt : Splicing.farNorthRoad.Built := RoadGraph.built_oneRoad _ _ _ _ _
  obtain ⟨o, final, hbuild, h⟩ := Splicing.build_farNorth
  obtain ⟨hpoints, part, hpart, hshape⟩ := Splicing.parts_farNorthChain
  have hpoint : part.shape.length = 1 := by
    unfold Polyline.length
    rw [hshape]
    rfl
  have hcomputed : ∀ (i : Nat) u, Splicing.farNorthSnaps[i]? = some u →
      u.Computed Splicing.farNorthRoad := fun i u hu => by
    have hsome : ∃ p, u.point = some p := by
      rcases Splicing.cases_farNorth hu with rfl | rfl <;> exact ⟨_, rfl⟩
    obtain ⟨p, hp⟩ := hsome
    exact Splicing.found_farNorth.computed hu (Splicing.closest_farNorth i u hu) hp
  obtain ⟨s, t, p, hs, hp, hbroken⟩ := exists_broken_pair hbuilt hbuild h (List.mem_singleton.2 rfl)
    hpoints Splicing.nowhere_ne_farNorth hpart hpoint
  exact hbroken (hall _ _ _ _ hbuilt hcomputed
    (Splicing.loopsInPlace_onlyRoad Splicing.closest_farNorth) hbuild _ s t p
    (.opened (Overlay.build_fresh hbuild)) hs (.searched hp))

/-- **On a loop without a direction** the piece between two fixes that name it from different sides
is a point. -/
theorem not_drawn_on_loop : ¬ DrawnWhere PillarsApart fun l s => s < Network.nodeCount l := by
  intro hall
  have hbuilt : Splicing.levelLoop.Built := RoadGraph.built_oneLoop _ _ _
  obtain ⟨o, final, hbuild, h⟩ := Splicing.build_levelLoop
  obtain ⟨hpoints, hpart⟩ := Splicing.chainOf_pair (Splicing.uncut Splicing.levelLoop)
    RoadGraph.onlyLoop Splicing.loopShape (Exact.onParallel 0 0) (Exact.onParallel 0 0)
    (s := Splicing.onLoop) (t := Splicing.onLoopBack) rfl rfl
    (Exact.coincides_onParallel 0 (by norm_num)) (Exact.coincides_onParallel 0 (by norm_num))
  have hne : Exact.onParallel 0 1 ≠ Exact.onParallel 0 (-1) := fun heq => by
    have hlon : (1 : ℝ) = -1 := by
      simpa [Exact.onParallel, Point.flat] using congrArg (fun p => p.lon.val) heq
    norm_num at hlon
  obtain ⟨s, t, p, hs, hp, hbroken⟩ := exists_broken_pair hbuilt hbuild h (List.mem_singleton.2 rfl)
    hpoints hne hpart rfl
  exact hbroken (hall _ _ _ _ hbuilt Splicing.computed_levelLoop Splicing.pillarsApart_levelLoop
    hbuild _ s t p (.opened (Overlay.build_fresh hbuild)) hs (.searched hp))

end RoadSplice

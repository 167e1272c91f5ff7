/-
  RoadSplice.Proofs.Query.Spanned — edges that are found again between their nodes.

  A path names each of its edges by a number and the node to which it leads.  Asked for these, a
  graph answers with the edge in the direction of travel: a loop answers in its stored direction,
  which has the same ends, and a piece that was taken against its own direction answers with the
  piece paired with it.  Where the shapes of pieces end at their nodes, each edge of a path
  spans its nodes, so the path has a line along it.
-/
import RoadSplice.Proofs.Hierarchy.Pieces
import RoadSplice.Proofs.Overlay.Loops
import RoadSplice.Proofs.Overlay.Representation
import RoadSplice.Proofs.Query.Marks
import RoadSplice.Proofs.Query.Shapes
import RoadSplice.Proofs.Search.Followed
import RoadSplice.Proofs.Search.Lines

namespace RoadSplice

variable {K : Type} {g : RoadGraph K} {x : Hop}

/-! ## §1. Roads. -/

/-- **Each direction has an offered one** between the same nodes: of a loop, the stored one. -/
theorem RoadGraph.HasDirection.exists_offered {d : DirectedEdge} (h : g.HasDirection d) :
    ∃ d', g.Offers d' ∧ d'.edge = d.edge ∧ d'.base = d.base ∧ d'.adj = d.adj := by
  by_cases hloop : d.base = d.adj
  · cases hreverse : d.reverse with
    | false => exact ⟨d, ⟨h, fun _ => hreverse⟩, rfl, rfl, rfl⟩
    | true =>
      refine ⟨d.reversed, ⟨h.reversed, fun _ => ?_⟩, rfl, hloop.symm, hloop⟩
      simp [DirectedEdge.reversed, hreverse]
  · exact ⟨d, h.offers hloop, rfl, rfl, rfl⟩

variable [Scalar K]

/-- The shape of a road begins and ends where its nodes lie. -/
theorem RoadGraph.WellFormed.view_ends (hg : g.WellFormed) {d : DirectedEdge}
    (hd : g.HasDirection d) :
    (∃ a, g.nodes[d.base]? = some a ∧ (g.view d).shape.first? = some a) ∧
      ∃ b, g.nodes[d.adj]? = some b ∧ (g.view d).shape.last? = some b := by
  have hshape : d.shape g = .ok (g.view d).shape := by
    obtain ⟨r, hr, -⟩ := hd
    unfold DirectedEdge.shape RoadGraph.edgeNodes
    rw [hr]
    rfl
  obtain ⟨hfirst, hlast⟩ := hg.towers hd hshape
  have hbase := Array.getElem?_eq_getElem (hg.touches_lt hd.touches.1)
  have hadj := Array.getElem?_eq_getElem (hg.touches_lt hd.touches.2)
  exact ⟨⟨_, hbase, hfirst.symm.trans hbase⟩, ⟨_, hadj, hlast.symm.trans hadj⟩⟩

/-- **A road is found again** in one of its directions between the same nodes. -/
theorem RoadGraph.RoadHop.exists_edge (hx : g.RoadHop x) :
    ∃ d, g.HasDirection d ∧ g.edge x.edge (some x.adj) = .ok (g.view d) ∧ d.base = x.base ∧
      d.adj = x.adj := by
  obtain ⟨d, hd, rfl⟩ := hx
  obtain ⟨d', hd', hedge, hbase, hadj⟩ := hd.exists_offered
  refine ⟨d', hd'.1, ?_, hbase, hadj⟩
  rw [← hedge, ← hadj]
  exact RoadGraph.edge_of_offers hd'

/-! ## §2. Pieces. -/

namespace QueryGraph

/-- **A graph whose pieces span their nodes**: each ends where its nodes lie, and the piece paired
with it leads back. -/
structure Spanning (q : QueryGraph K) : Prop extends Sound q where
  ends : ∀ i p, q.overlay.piece? i = some p → p.Ends q
  paired : ∀ i p, q.overlay.piece? i = some p →
    ∃ p', q.overlay.piece? p.pair = some p' ∧ p'.base = p.adj ∧ p'.adj = p.base

variable {q : QueryGraph K}

/-- A piece is found again in its own direction. -/
theorem Spanning.spanned_view (h : q.Spanning) {i : Nat} {p : Piece K}
    (hp : q.overlay.piece? i = some p) : ∃ v, q.pieceViewOrFail i = .ok v ∧ v.base = p.base ∧
      v.adj = p.adj ∧ v.Spans q := by
  obtain ⟨hbase, hadj⟩ := h.ends i p hp
  have hview : ∃ v, q.pieceView i = some v ∧ v.base = p.base ∧ v.adj = p.adj ∧
      v.shape = p.shape := by
    rw [pieceView, Overlay.view, hp]
    exact ⟨_, rfl, rfl, rfl, rfl⟩
  obtain ⟨v, hv, hvbase, hvadj, hshape⟩ := hview
  refine ⟨v, by rw [pieceViewOrFail, hv], hvbase, hvadj, ?_, ?_⟩
  · rw [hvbase, hshape]
    exact hbase
  · rw [hvadj, hshape]
    exact hadj

/-- **A piece is found again** in either direction, by its own number. -/
theorem Spanning.spanned_piece (h : q.Spanning) (hx : q.PieceHop x) : x.Spanned q := by
  obtain ⟨i, p, hp, hor⟩ := hx
  have hindex := h.id i p hp
  have hedge : ∀ n, q.edge p.id (some n) = if p.adj = n then q.pieceViewOrFail i
      else if p.base = n then q.pieceViewOrFail p.pair else .error (.edgeNotAdjacent p.id n) :=
    fun n => by
      unfold QueryGraph.edge
      simp only [hindex, hp]
  obtain ⟨v, hv, hbase, hadj, hspans⟩ := h.spanned_view hp
  obtain rfl | rfl := hor
  · refine ⟨v, ?_, hbase, hadj, hspans⟩
    show q.edge p.id (some p.adj) = _
    rw [hedge, if_pos rfl, hv]
  · by_cases hsame : p.adj = p.base
    · refine ⟨v, ?_, hbase.trans hsame.symm, hadj.trans hsame, hspans⟩
      show q.edge p.id (some p.base) = _
      rw [hedge, if_pos hsame, hv]
    · -- Against its own direction the piece paired with it answers.
      obtain ⟨p', hp', hbase', hadj'⟩ := h.paired i p hp
      obtain ⟨v', hv', hvbase, hvadj, hspans'⟩ := h.spanned_view hp'
      refine ⟨v', ?_, hvbase.trans hbase', hvadj.trans hadj', hspans'⟩
      show q.edge p.id (some p.base) = _
      rw [hedge, if_neg hsame, if_pos rfl, hv']

/-- **A road of the graph below is found again**, also where it is cut. -/
theorem Spanning.spanned_road (h : q.Spanning) (hx : q.base.RoadHop x) : x.Spanned q := by
  obtain ⟨d, hd, hfound, hbase, hadj⟩ := RoadGraph.RoadHop.exists_edge hx
  have hplace : ∀ {n : NodeId} {a : Point K}, q.base.Touches d.edge n → q.base.nodes[n]? = some a →
      q.coordinate? n = some a := fun hn ha => by
    rw [coordinate?_of_lt (h.firstNode_eq ▸ h.base.touches_lt hn), ha]
  obtain ⟨⟨a, ha, hfirst⟩, ⟨b, hb, hlast⟩⟩ := h.base.view_ends hd
  refine ⟨q.base.view d, ?_, hbase, hadj, ⟨a, hplace hd.touches.1 ha, hfirst⟩,
    ⟨b, hplace hd.touches.2 hb, hlast⟩⟩
  -- Ids of roads come before those of virtual edges.
  have hindex : q.overlay.index? x.edge = none := by
    obtain ⟨e, ⟨r, hr, -⟩, rfl⟩ := hx
    refine Overlay.index?_of_lt ?_
    rw [h.firstEdge_eq]
    exact (Array.getElem?_eq_some_iff.1 hr).1
  show q.edge x.edge (some x.adj) = _
  unfold QueryGraph.edge
  simp only [hindex]
  exact hfound

omit [Scalar K] in
/-- Marks and flag words change neither the ends of pieces nor where nodes lie. -/
theorem Spanning.remarked {o : Overlay K} (h : (ofOverlay g o).Spanning) (words : Array Word)
    (m : Nat → Bool) (t : List Nat) : (marking { g with words := words } o m t).Spanning := by
  refine ⟨(h.toSound.remarked m t).withWords words, fun i p hp => ?_, fun i p hp => ?_⟩
  all_goals
    have hp : (o.withMarks m).piece? i = some p := hp
    rw [Overlay.piece?_withMarks] at hp
    obtain ⟨p₀, hp₀, rfl⟩ := Option.map_eq_some_iff.1 hp
  · obtain ⟨hbase, hadj⟩ := h.ends i p₀ hp₀
    exact ⟨hbase, hadj⟩
  · obtain ⟨p', hp', hends⟩ := h.paired i p₀ hp₀
    exact ⟨_, piece?_marking hp', hends⟩

/-! ## §3. Built overlays. -/

/-- **The pieces of an overlay of computed snaps span their nodes.** -/
theorem spanning_of_build [OrderedScalar K] {snaps final : Array (Snap K)} {o : Overlay K}
    (hg : g.WellFormed) (hcomputed : ∀ (i : Nat) s, snaps[i]? = some s → s.Computed g)
    (hapart : Splicing.PillarsApart g snaps) (hloops : Splicing.LoopsInPlace g snaps)
    (hbuild : Overlay.build g snaps = (.ok o, final)) : (ofOverlay g o).Spanning := by
  obtain ⟨groups, prepared, spliced, cs, hsteps⟩ := Splicing.exists_buildSteps hbuild
  have hroads : Splicing.OnRoads g snaps := fun i s hs d hd => by
    obtain ⟨d', hd', hdir⟩ := (hcomputed i s hs).closest
    obtain rfl : d = d' := Option.some.inj (hd.symm.trans hd')
    exact hdir
  obtain ⟨h, hthreads⟩ := Overlay.spliced_of_steps hg hroads hsteps
  -- Snaps that were computed are in place, so their chains can be drawn.
  have hdrawn : ∀ c ∈ cs, ∃ shape start last ss,
      Splicing.Threads g snaps final g.nodeCount c shape start last ss ∧
        Splicing.Drawn shape (Splicing.baseAnchor c.road start) ss := fun c hc => by
    obtain ⟨shape, start, last, ss, ht⟩ := hthreads c hc
    obtain ⟨j, t₀, t, ht₀, hfiled, hroad, hfirst⟩ := hsteps.exists_first hc
    exact ⟨shape, start, last, ss, ht,
      Splicing.drawn_of_computed hcomputed hloops hapart ht ht₀ hfiled hroad hfirst⟩
  refine ⟨sound_of_build hg hbuild, fun i p hp => h.piece_ends hg hdrawn hp, fun i p hp => ?_⟩
  obtain ⟨-, p', hp', -, hopposite⟩ := (Overlay.build_tables hbuild).1.pair i p hp
  exact ⟨p', hp', hopposite.base, hopposite.adj⟩

end QueryGraph

end RoadSplice

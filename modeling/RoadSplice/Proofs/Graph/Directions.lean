/-
  RoadSplice.Proofs.Graph.Directions — the directed roads of a graph and where they are offered.

  A road has two directions.  A node offers the directions that begin there, except that a loop
  is offered in its stored direction only; an offered direction is found again by its number and
  the node to which it leads.
-/
import RoadSplice.Proofs.Graph.Built

namespace RoadSplice.RoadGraph

variable {K : Type}

/-! ## §1. Directions. -/

/-- A road of the graph in one of its two directions. -/
def HasDirection (g : RoadGraph K) (d : DirectedEdge) : Prop :=
  ∃ r, g.roads[d.edge]? = some r ∧
    (d = ⟨d.edge, r.a, r.b, false⟩ ∨ d = ⟨d.edge, r.b, r.a, true⟩)

/-- A direction that a node offers: of a loop, the stored one. -/
def Offers (g : RoadGraph K) (d : DirectedEdge) : Prop :=
  g.HasDirection d ∧ (d.base = d.adj → d.reverse = false)

theorem HasDirection.reversed {g : RoadGraph K} {d : DirectedEdge} (h : g.HasDirection d) :
    g.HasDirection d.reversed := by
  obtain ⟨r, hr, heq | heq⟩ := h
  · exact ⟨r, hr, .inr (by rw [heq]; rfl)⟩
  · exact ⟨r, hr, .inl (by rw [heq]; rfl)⟩

/-- A road that is no loop is offered in both directions. -/
theorem HasDirection.offers {g : RoadGraph K} {d : DirectedEdge} (h : g.HasDirection d)
    (hd : d.base ≠ d.adj) : g.Offers d := ⟨h, fun heq => absurd heq hd⟩

theorem HasDirection.touches {g : RoadGraph K} {d : DirectedEdge} (h : g.HasDirection d) :
    g.Touches d.edge d.base ∧ g.Touches d.edge d.adj := by
  obtain ⟨r, hr, heq | heq⟩ := h
  · exact ⟨⟨r, hr, .inl (by rw [heq])⟩, ⟨r, hr, .inr (by rw [heq])⟩⟩
  · exact ⟨⟨r, hr, .inr (by rw [heq])⟩, ⟨r, hr, .inl (by rw [heq])⟩⟩

/-- **Directions of one road** agree or are opposite. -/
theorem HasDirection.eq_or_reversed {g : RoadGraph K} {d e : DirectedEdge}
    (hd : g.HasDirection d) (he : g.HasDirection e) (hedge : d.edge = e.edge) :
    d = e ∨ d = e.reversed := by
  obtain ⟨r, hr, hd⟩ := hd
  obtain ⟨r', hr', he⟩ := he
  obtain rfl : r = r' := by simpa [hedge, hr'] using hr.symm
  rw [hedge] at hd
  obtain hd | hd := hd <;> obtain he | he := he <;> rw [hd, he]
  · exact .inl rfl
  · exact .inr rfl
  · exact .inr rfl
  · exact .inl rfl

/-- A direction is known from its road and from whether it is reversed. -/
theorem HasDirection.eq_of_reverse {g : RoadGraph K} {d e : DirectedEdge}
    (hd : g.HasDirection d) (he : g.HasDirection e) (hedge : d.edge = e.edge)
    (hreverse : d.reverse = e.reverse) : d = e := by
  refine (hd.eq_or_reversed he hedge).resolve_right fun hopposite => ?_
  have hflip : d.reverse = !e.reverse := congrArg DirectedEdge.reverse hopposite
  rw [hreverse] at hflip
  simp at hflip

/-- The stored direction of a road. -/
theorem hasDirection_stored {g : RoadGraph K} {edge : EdgeId} {r : Road K}
    (hr : g.roads[edge]? = some r) : g.HasDirection ⟨edge, r.a, r.b, false⟩ := ⟨r, hr, .inl rfl⟩

/-! ## §2. Where a direction is offered. -/

theorem mem_directedEdges {g : RoadGraph K} (hg : g.WellFormed) {n : NodeId}
    {d : DirectedEdge} : d ∈ g.directedEdges n ↔ g.Offers d ∧ d.base = n := by
  unfold directedEdges leaving
  simp only [List.mem_filterMap, Option.map_eq_some_iff]
  constructor
  · rintro ⟨e, he, r, hr, rfl⟩
    obtain ⟨r', hr', hn⟩ := (hg.mem_incidentAt n e).1 he
    obtain rfl : r = r' := by simpa [hr'] using hr.symm
    -- A loop is left forwards, being seen from its first end.
    split
    · rename_i ha
      exact ⟨⟨⟨r, hr, .inl rfl⟩, fun _ => rfl⟩, ha⟩
    · rename_i ha
      have hb : r.b = n := hn.resolve_left ha
      exact ⟨⟨⟨r, hr, .inr rfl⟩, fun heq => absurd (heq.symm.trans hb) ha⟩, hb⟩
  · rintro ⟨⟨⟨r, hr, hd⟩, hloop⟩, hn⟩
    refine ⟨d.edge, ?_, r, hr, ?_⟩
    · refine (hg.mem_incidentAt n d.edge).2 ⟨r, hr, ?_⟩
      obtain hd | hd := hd
      · exact .inl (by rw [← hn, hd])
      · exact .inr (by rw [← hn, hd])
    · obtain hd | hd := hd
      · rw [if_pos (by rw [← hn, hd])]
        exact hd.symm
      · have hne : r.a ≠ n := by
          intro ha
          rw [hd] at hn hloop
          exact absurd (hloop (hn.trans ha.symm)) (by simp)
        rw [if_neg hne]
        exact hd.symm

theorem length_directedEdges_le {g : RoadGraph K} (hg : g.WellFormed) (n : NodeId) :
    (g.directedEdges n).length ≤ g.edgeCount := by
  have hsub : g.incidentAt n ⊆ List.range g.edgeCount := fun e he => by
    obtain ⟨r, hr, -⟩ := (hg.mem_incidentAt n e).1 he
    exact List.mem_range.2 (Array.getElem?_eq_some_iff.1 hr).1
  have hle := (hg.nodup n).length_le_of_subset hsub
  rw [List.length_range] at hle
  exact Nat.le_trans (List.length_filterMap_le _ _) hle

variable [Scalar K]

theorem mem_edges {g : RoadGraph K} (hg : g.WellFormed) {n : NodeId} {v : EdgeView K} :
    v ∈ g.edges n ↔ ∃ d, g.Offers d ∧ d.base = n ∧ g.view d = v := by
  simp only [edges, List.mem_map, mem_directedEdges hg, and_assoc]

/-- **A node offers its roads in the order in which it lists them**, none of them dropped. -/
theorem edges_map_edge {g : RoadGraph K} (hg : g.WellFormed) (n : NodeId) :
    (g.edges n).map (·.edge) = g.incidentAt n := by
  -- Every road that is listed exists, so none is dropped on the way.
  have hone : ∀ es : List EdgeId, (∀ e ∈ es, ∃ r, g.roads[e]? = some r) →
      ((es.filterMap (g.leaving n)).map g.view).map (·.edge) = es := by
    intro es
    induction es with
    | nil => exact fun _ => rfl
    | cons e es ih =>
      intro hes
      obtain ⟨r, hr⟩ := hes e (by simp)
      have hleaving : ∃ d, g.leaving n e = some d ∧ d.edge = e := by
        unfold leaving
        rw [hr]
        by_cases ha : r.a = n
        · exact ⟨_, congrArg some (if_pos ha), rfl⟩
        · exact ⟨_, congrArg some (if_neg ha), rfl⟩
      obtain ⟨d, hd, hedge⟩ := hleaving
      rw [List.filterMap_cons_some hd, List.map_cons, List.map_cons,
        ih fun e' he' => hes e' (by simp [he'])]
      exact congrArg (· :: es) hedge
  exact hone _ fun e he => by
    obtain ⟨r, hr, -⟩ := (hg.mem_incidentAt n e).1 he
    exact ⟨r, hr⟩

/-- The ends of what a node offers are nodes. -/
theorem adj_lt_of_mem_edges {g : RoadGraph K} (hg : g.WellFormed) {n : NodeId} {v : EdgeView K}
    (hv : v ∈ g.edges n) : v.base = n ∧ v.adj < g.nodeCount := by
  obtain ⟨d, hd, rfl, rfl⟩ := (mem_edges hg).1 hv
  exact ⟨rfl, hg.touches_lt hd.1.touches.2⟩

/-- A road is found by its number alone, in its stored direction. -/
theorem edge_stored {g : RoadGraph K} {edge : EdgeId} {r : Road K} (hr : g.roads[edge]? = some r) :
    g.edge edge none = .ok (g.view ⟨edge, r.a, r.b, false⟩) := by
  unfold RoadGraph.edge directedTo
  rw [hr]
  rfl

/-- **An offered direction is found again** by its number and the node to which it leads. -/
theorem edge_of_offers {g : RoadGraph K} {d : DirectedEdge} (hd : g.Offers d) :
    g.edge d.edge (some d.adj) = .ok (g.view d) := by
  obtain ⟨⟨r, hr, hdir⟩, hloop⟩ := hd
  unfold edge directedTo
  rw [hr]
  obtain hdir | hdir := hdir
  · have hadj : d.adj = r.b := by rw [hdir]
    simp only [hadj, ↓reduceIte]
    rw [← hdir]
    rfl
  · have hadj : d.adj = r.a := by rw [hdir]
    -- A loop is offered in its stored direction only, so the ends of this road differ.
    have hne : r.a ≠ r.b := by
      intro heq
      rw [hdir] at hloop
      exact absurd (hloop heq.symm) (by simp)
    simp only [hadj, hne, ↓reduceIte]
    rw [← hdir]
    rfl

/-- **What holds at every node, at every inner point and at the origin** holds along every road. -/
theorem forall_fullGeometry {P : Point K → Prop} {g : RoadGraph K} (horigin : P origin)
    (hnodes : ∀ p ∈ g.nodes, P p) (hpillars : ∀ r ∈ g.roads, ∀ p ∈ r.pillars.points, P p)
    (edge : EdgeId) (reverse : Bool) : ∀ p ∈ (g.fullGeometry edge reverse).points, P p := by
  -- An end that is not there lies at the origin.
  have hnode : ∀ n : NodeId, P (g.nodes[n]?.getD origin) := by
    intro n
    cases hn : g.nodes[n]? with
    | none => exact horigin
    | some p => exact hnodes p (Array.mem_of_getElem? hn)
  have hall : ∀ r ∈ g.roads, ∀ p ∈ (g.nodes[r.a]?.getD origin :: r.pillars.points) ++
      [g.nodes[r.b]?.getD origin], P p := by
    intro r hr p hp
    obtain hp | hp := List.mem_append.1 hp
    · obtain rfl | hp := List.mem_cons.1 hp
      · exact hnode r.a
      · exact hpillars r hr p hp
    · obtain rfl := List.mem_singleton.1 hp
      exact hnode r.b
  intro p hp
  unfold fullGeometry at hp
  split at hp
  · exact absurd hp List.not_mem_nil
  · rename_i r hr
    refine hall r (Array.mem_of_getElem? hr) p ?_
    cases reverse with
    | false => exact hp
    | true => exact List.mem_reverse.1 hp

/-- The road of a graph of one road. -/
theorem hasDirection_onlyRoad (p q : Point K) (pillars : List (Point K)) (d : K) (word : Nat) :
    (oneRoad p q pillars d word).HasDirection onlyRoad := by
  refine ⟨⟨0, 1, d, ⟨pillars, false⟩, ""⟩, ?_, .inl rfl⟩
  rw [(oneRoad_eq p q pillars d word).2.1]
  rfl

/-- The view of the only road reads what the graph was made of. -/
theorem view_onlyRoad (p q : Point K) (pillars : List (Point K)) (d : K) (word : Nat) :
    ((oneRoad p q pillars d word).view onlyRoad).word = BitVec.ofNat 64 word ∧
      ((oneRoad p q pillars d word).view onlyRoad).distance = d := by
  obtain ⟨-, hroads, hwords, -⟩ := oneRoad_eq p q pillars d word
  unfold view RoadGraph.word
  rw [hroads, hwords]
  exact ⟨rfl, rfl⟩

end RoadSplice.RoadGraph

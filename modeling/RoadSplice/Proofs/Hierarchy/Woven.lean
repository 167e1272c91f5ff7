/-
  RoadSplice.Proofs.Hierarchy.Woven — how the shortcuts of a table hang together.

  A shortcut is made from an arc into a node and an arc out of it, and each arc names an edge that
  the table has already.  So the two edges that a shortcut skips meet at the node that it passes
  over, whatever the weights are and whatever the search for witnesses answers, and every edge of a
  hierarchy stands for roads in a row.
-/
import RoadSplice.Proofs.Hierarchy.Contracted
import RoadSplice.Proofs.Hierarchy.Hops
import RoadSplice.Proofs.Hierarchy.Roads

namespace RoadSplice

open HierarchyEdge

variable {K : Type} {R : Hop → Prop} {es : Array (HierarchyEdge K)} {e f : HierarchyEdge K}
  {u v : NodeId}

/-! ## §1. Woven tables. -/

theorem HierarchyEdge.Between.symm (h : e.Between u v) : e.Between v u := Or.symm h

/-- **A woven table**: what is no shortcut is a hop in each direction, and the two edges that a
shortcut skips are in the table and meet at a node between its own. -/
structure Woven (R : Hop → Prop) (es : Array (HierarchyEdge K)) : Prop where
  hop : ∀ e, InTable es e → e.skipped = none → e.underlying.isSome = true ∧ R (hopOf e)
  skips : ∀ e ∈ es, ∀ a b, e.skipped = some (a, b) →
    ∃ f f' m, es[a]? = some f ∧ es[b]? = some f' ∧ f.Between e.base m ∧ f'.Between m e.adj

/-- **Read from its other end**, a shortcut skips the same two edges in the other order. -/
theorem Woven.skips_inTable (h : Woven R es) (he : InTable es e) {a b : EdgeId}
    (hskipped : e.skipped = some (a, b)) :
    ∃ f f' m, es[a]? = some f ∧ es[b]? = some f' ∧ f.Between e.base m ∧ f'.Between m e.adj := by
  obtain he | he := he
  · exact h.skips e he a b hskipped
  · obtain ⟨f, f', m, hf, hf', hfirst, hsecond⟩ :=
      h.skips e.reversed he b a (by simp [reversed, hskipped])
    exact ⟨f', f, m, hf', hf, hsecond.symm, hfirst.symm⟩

/-- **One more shortcut**, over two edges of the table that meet. -/
theorem Woven.push (h : Woven R es) {a b : EdgeId} (hskipped : e.skipped = some (a, b))
    {f f' : HierarchyEdge K} {m : NodeId} (hf : es[a]? = some f) (hf' : es[b]? = some f')
    (hfirst : f.Between e.base m) (hsecond : f'.Between m e.adj) : Woven R (es.push e) where
  hop k hk hnone := by
    obtain hk | rfl | hk := inTable_push.1 hk
    · exact h.hop k hk hnone
    · rw [hskipped] at hnone
      cases hnone
    · have hreversed : k.reversed.skipped = none := by simp [reversed, hnone]
      rw [hk, hskipped] at hreversed
      cases hreversed
  skips k hk c d hcd := by
    obtain hk | rfl := Array.mem_push.1 hk
    · obtain ⟨l, l', n, hl, hl', hends⟩ := h.skips k hk c d hcd
      exact ⟨l, l', n, getElem?_push_of_some hl, getElem?_push_of_some hl', hends⟩
    · obtain ⟨rfl, rfl⟩ := Prod.mk.inj (Option.some.inj (hskipped.symm.trans hcd))
      exact ⟨f, f', m, getElem?_push_of_some hf, getElem?_push_of_some hf', hfirst, hsecond⟩

/-! ## §2. Contractions in progress. -/

/-- An arc at a node that names an edge between the node and its neighbour. -/
def Names (es : Array (HierarchyEdge K)) (n : NodeId) (arc : Arc K) : Prop :=
  ∃ e, es[arc.edge]? = some e ∧ e.Between n arc.node

theorem Names.push {n : NodeId} {arc : Arc K} (h : Names es n arc) (e : HierarchyEdge K) :
    Names (es.push e) n arc := by
  obtain ⟨f, hf, hends⟩ := h
  exact ⟨f, getElem?_push_of_some hf, hends⟩

namespace Contraction

variable {c : Contraction K} {node : NodeId}

/-- **What contraction keeps**: its table is woven, and each arc names an edge of the table. -/
structure Weaves (R : Hop → Prop) (c : Contraction K) : Prop where
  table : Woven R c.edges
  out : ∀ n, ∀ arc ∈ c.arcs.outOf n, Names c.edges n arc
  into : ∀ n, ∀ arc ∈ c.arcs.into n, Names c.edges n arc

variable [Scalar K]

/-- **Bridging a passage** over two arcs of the node. -/
theorem Weaves.bridge (h : c.Weaves R) {enter leave : Arc K} (henter : Names c.edges node enter)
    (hleave : Names c.edges node leave) :
    (c.bridge node enter leave).Weaves R ∧ ∀ n arc, Names c.edges n arc →
      Names (c.bridge node enter leave).edges n arc := by
  unfold Contraction.bridge
  dsimp only
  split
  · exact ⟨h, fun _ _ hn => hn⟩
  · obtain ⟨f, hf, hfirst⟩ := henter
    obtain ⟨f', hf', hsecond⟩ := hleave
    refine ⟨⟨h.table.push rfl hf hf' hfirst.symm hsecond, fun n arc harc => ?_,
      fun n arc harc => ?_⟩, fun n arc hn => hn.push _⟩
    -- Its own arcs name the new edge, which stands at the end of the table.
    · obtain harc | ⟨rfl, rfl⟩ := listed_of_modify harc
      · exact (h.out n arc harc).push _
      · exact ⟨_, Array.getElem?_push_size, .inl ⟨rfl, rfl⟩⟩
    · obtain harc | ⟨rfl, rfl⟩ := listed_of_modify harc
      · exact (h.into n arc harc).push _
      · exact ⟨_, Array.getElem?_push_size, .inr ⟨rfl, rfl⟩⟩

theorem Weaves.bridges (h : c.Weaves R) (node : NodeId) {passages : List (Arc K × Arc K)}
    (hp : ∀ p ∈ passages, Names c.edges node p.1 ∧ Names c.edges node p.2) :
    (passages.foldl (fun c p => c.bridge node p.1 p.2) c).Weaves R := by
  induction passages generalizing c with
  | nil => exact h
  | cons p passages ih =>
    obtain ⟨henter, hleave⟩ := hp p List.mem_cons_self
    obtain ⟨hbridge, hkept⟩ := h.bridge henter hleave
    refine ih hbridge fun q hq => ?_
    obtain ⟨hq₁, hq₂⟩ := hp q (List.mem_cons_of_mem p hq)
    exact ⟨hkept node q.1 hq₁, hkept node q.2 hq₂⟩

/-- **Contracting a node** keeps the table woven. -/
theorem Weaves.contractNode (h : c.Weaves R) (node : NodeId) : (c.contractNode node).Weaves R := by
  rw [contractNode_eq]
  have hnames : ∀ p ∈ c.passages node, Names c.edges node p.1 ∧ Names c.edges node p.2 := by
    intro p hp
    simp only [passages, List.mem_flatMap, List.mem_map, List.mem_filter] at hp
    obtain ⟨enter, ⟨henter, -⟩, leave, ⟨hleave, -⟩, rfl⟩ := hp
    exact ⟨h.into node enter henter, h.out node leave hleave⟩
  have hdone := h.bridges node hnames
  exact ⟨hdone.table, hdone.out, hdone.into⟩

theorem Weaves.contractAll (h : c.Weaves R) (order : List NodeId) :
    (order.foldl Contraction.contractNode c).Weaves R := by
  induction order generalizing c with
  | nil => exact h
  | cons n order ih => exact ih (h.contractNode n)

end Contraction

/-! ## §3. Hierarchies. -/

/-- A hop over a road of a graph. -/
def RoadGraph.RoadHop (g : RoadGraph K) (x : Hop) : Prop :=
  ∃ d, g.HasDirection d ∧ x = ⟨d.base, d.adj, d.edge⟩

variable [Scalar K] {g : RoadGraph K} {w : Weighting K} {h : Hierarchy K}

/-- The roads of a graph as a table are woven. -/
theorem woven_roadTable (g : RoadGraph K) (w : Weighting K) : Woven g.RoadHop (roadTable g w) where
  hop e he _ := by
    obtain he | he := he
    · obtain ⟨i, hi⟩ := Array.mem_iff_getElem?.1 he
      obtain ⟨r, hr, rfl⟩ := roadTable_getElem?.1 hi
      exact ⟨rfl, _, RoadGraph.hasDirection_stored hr, rfl⟩
    · obtain ⟨i, hi⟩ := Array.mem_iff_getElem?.1 he
      obtain ⟨r, hr, heq⟩ := roadTable_getElem?.1 hi
      obtain rfl : e = (roadEdge w (g.view ⟨i, r.a, r.b, false⟩)).reversed := by
        rw [← heq, reversed_reversed]
      exact ⟨rfl, _, (RoadGraph.hasDirection_stored hr).reversed, rfl⟩
  skips e he a b hskipped := by
    obtain ⟨i, hi⟩ := Array.mem_iff_getElem?.1 he
    obtain ⟨r, -, rfl⟩ := roadTable_getElem?.1 hi
    cases hskipped

/-- A direction of a road of the table names it. -/
theorem getElem?_roadTable (he : e ∈ roadTable g w) : (roadTable g w)[e.edge]? = some e := by
  obtain ⟨i, hi⟩ := Array.mem_iff_getElem?.1 he
  obtain ⟨r, -, rfl⟩ := roadTable_getElem?.1 hi
  exact hi

/-- **Before the first contraction**, the arcs name roads. -/
theorem weaves_start (g : RoadGraph K) (w : Weighting K) (nodes : Nat) (contracted : Array Bool) :
    (⟨roadTable g w, (roadTable g w).foldl Arcs.addEdge (Arcs.empty nodes), contracted⟩ :
      Contraction K).Weaves g.RoadHop := by
  obtain ⟨hout, hinc⟩ := listed_of_listEnds (F := Arcs.arcTo) (G := Arcs.arcFrom)
    ((roadTable g w).toList.flatMap openDirections) (Arcs.empty nodes : Arcs K).tables
  rw [← Arcs.tables_addEdges] at hout hinc
  -- What is listed at first are the directions of roads.
  have hnames : ∀ f ∈ (roadTable g w).toList.flatMap openDirections, ∃ e,
      (roadTable g w)[f.edge]? = some e ∧ e.Between f.base f.adj := by
    intro f hf
    obtain ⟨e, he, hf⟩ := List.mem_flatMap.1 hf
    have hstored := getElem?_roadTable (Array.mem_toList_iff.1 he)
    obtain rfl | rfl := eq_or_reversed_of_mem hf
    · exact ⟨f, hstored, .inl ⟨rfl, rfl⟩⟩
    · exact ⟨e, hstored, .inr ⟨rfl, rfl⟩⟩
  refine ⟨woven_roadTable g w, fun n arc harc => ?_, fun n arc harc => ?_⟩
  · obtain harc | ⟨f, hf, rfl, rfl⟩ := hout n arc harc
    · exact absurd harc (not_listed_noEntries nodes n arc)
    · exact hnames f hf
  · obtain harc | ⟨f, hf, rfl, rfl⟩ := hinc n arc harc
    · exact absurd harc (not_listed_noEntries nodes n arc)
    · obtain ⟨e, he, hends⟩ := hnames f hf
      exact ⟨e, he, hends.symm⟩

/-- **The edges of a hierarchy are woven.** -/
theorem woven_of_contract (hcontract : contract g w = .ok h) : Woven g.RoadHop h.edges := by
  obtain rfl := Except.ok.inj ((contract_eq g w).symm.trans hcontract)
  rw [(Hierarchy.ofEdges_fields _ _ _).1]
  exact ((weaves_start g w _ _).contractAll _).table

/-- **What a hierarchy lists** at a node is an edge of its table that begins there. -/
theorem listed_of_contract (hcontract : contract g w = .ok h) (forward : Bool) (n : NodeId)
    (e : HierarchyEdge K) (he : e ∈ h.routing.sideEdges forward n) :
    InTable h.edges e ∧ e.base = n := by
  obtain rfl := Except.ok.inj ((contract_eq g w).symm.trans hcontract)
  rw [(Hierarchy.ofEdges_fields _ _ _).1]
  -- The lists are made from the table, whatever contraction has put there.
  generalize (List.foldl Contraction.contractNode (_ : Contraction K) _).edges = es at he ⊢
  generalize rankFrom 0 _ _ = levels at he
  obtain ⟨hout, hinc⟩ := listed_of_listEnds (F := id) (G := reversed)
    (es.toList.flatMap openDirections) (noEntries levels.size)
  rw [← Hierarchy.tables_ofEdges g.edgeCount] at hout hinc
  have htable : ∀ f ∈ es.toList.flatMap openDirections, InTable es f := by
    intro f hf
    obtain ⟨k, hk, hf⟩ := List.mem_flatMap.1 hf
    obtain rfl | rfl := eq_or_reversed_of_mem hf
    · exact .inl (Array.mem_toList_iff.1 hk)
    · exact .inr (by rwa [reversed_reversed, ← Array.mem_toList_iff])
  cases forward with
  | true =>
    obtain he | ⟨f, hf, rfl, rfl⟩ := hout n e he
    · exact absurd he (not_listed_noEntries levels.size n e)
    · exact ⟨htable _ hf, rfl⟩
  | false =>
    obtain he | ⟨f, hf, rfl, rfl⟩ := hinc n e he
    · exact absurd he (not_listed_noEntries levels.size n e)
    · exact ⟨inTable_reversed.2 (htable f hf), rfl⟩

omit [Scalar K] in
theorem Hierarchy.edge_none {id : EdgeId} : h.edge id none = .ok e ↔ h.edges[id]? = some e := by
  unfold Hierarchy.edge oriented
  cases h.edges[id]? with
  | none => simp
  | some f => simp

/-- **The edges of a hierarchy stand for roads.** -/
theorem Woven.standsFor (hw : Woven R h.edges) : h.routing.StandsFor R (InTable h.edges) where
  reversed e he := inTable_reversed.2 he
  hop := hw.hop
  skips e a b f f' he hskipped hf hf' := by
    obtain ⟨k, k', m, hk, hk', hends⟩ := hw.skips_inTable he hskipped
    have hfk : k = f := Option.some.inj (hk.symm.trans (Hierarchy.edge_none.1 hf))
    have hfk' : k' = f' := Option.some.inj (hk'.symm.trans (Hierarchy.edge_none.1 hf'))
    subst hfk hfk'
    exact ⟨.inl (Array.mem_of_getElem? hk), .inl (Array.mem_of_getElem? hk'), m, hends⟩

/-- **A route on a hierarchy is a path over roads**, whatever the weights are. -/
theorem hops_of_route (hcontract : contract g w = .ok h) {s t : NodeId} {p : Path K}
    (hroute : h.routing.route s t = .ok (some p)) : p.Hops g.RoadHop s t :=
  (woven_of_contract hcontract).standsFor.route (listed_of_contract hcontract) hroute

end RoadSplice

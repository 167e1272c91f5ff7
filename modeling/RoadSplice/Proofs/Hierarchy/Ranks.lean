/-
  RoadSplice.Proofs.Hierarchy.Ranks — what shortcuts pass over.

  A node is contracted once, and from then on no shortcut begins or ends there.  So the node that a
  shortcut passes over comes before both its ends in the order of contraction, and lies below them
  in level.  The two edges that it skips were in the table before it.  None of this depends on the
  weights, on turn costs or on what the search for witnesses answers.

  The induction is over the nodes of the order; within a node, over the passages that are bridged.
-/
import RoadSplice.Proofs.Hierarchy.Woven

namespace RoadSplice

open HierarchyEdge

variable {K : Type} [Scalar K] {es : Array (HierarchyEdge K)} {e : HierarchyEdge K} {i : Nat}
  {m : NodeId}

/-! ## §1. Shortcuts over a node. -/

/-- **A shortcut over a node**: it stands for two edges with smaller ids that meet there, joins two
nodes, has no road of its own and is closed backwards. -/
structure HierarchyEdge.PassesOver (es : Array (HierarchyEdge K)) (i : Nat) (e : HierarchyEdge K)
    (m : NodeId) : Prop where
  joins : e.base ≠ e.adj
  skips : ∃ a b f f', e.skipped = some (a, b) ∧ a < i ∧ b < i ∧ es[a]? = some f ∧
    es[b]? = some f' ∧ f.Between e.base m ∧ f'.Between m e.adj
  underlying : e.underlying = none
  closed : e.weightBackward = Scalar.infinity ∧ e.millisBackward = Millis.unusable

theorem HierarchyEdge.PassesOver.push (h : PassesOver es i e m) (k : HierarchyEdge K) :
    PassesOver (es.push k) i e m := by
  obtain ⟨a, b, f, f', hskipped, ha, hb, hf, hf', hends⟩ := h.skips
  exact ⟨h.joins, ⟨a, b, f, f', hskipped, ha, hb, getElem?_push_of_some hf,
    getElem?_push_of_some hf', hends⟩, h.underlying, h.closed⟩

/-- **A table in which shortcuts respect an order of nodes**: what a shortcut passes over comes in
the order, and neither end of the shortcut comes before. -/
structure HierarchyEdge.Ordered (nodeCount : Nat) (order : List NodeId)
    (es : Array (HierarchyEdge K)) : Prop where
  edge_eq : ∀ (i : Nat) e, es[i]? = some e → e.edge = i
  ends_lt : ∀ e ∈ es, e.base < nodeCount ∧ e.adj < nodeCount
  passes : ∀ (i : Nat) e, es[i]? = some e → e.skipped.isSome = true →
    ∃ p m, p ++ [m] <+: order ∧ e.base ∉ p ++ [m] ∧ e.adj ∉ p ++ [m] ∧ PassesOver es i e m

variable {nodeCount : Nat} {order pre : List NodeId} {node : NodeId}

omit [Scalar K] in
/-- The neighbour of an arc is a node. -/
theorem Names.node_lt {n : NodeId} {arc : Arc K} (hn : Names es n arc)
    (hes : ∀ e ∈ es, e.base < nodeCount ∧ e.adj < nodeCount) : arc.node < nodeCount := by
  obtain ⟨f, hf, ⟨-, hadj⟩ | ⟨hbase, -⟩⟩ := hn
  · exact hadj ▸ (hes f (Array.mem_of_getElem? hf)).2
  · exact hbase ▸ (hes f (Array.mem_of_getElem? hf)).1

/-- **One more shortcut**, over the last node of the order. -/
theorem HierarchyEdge.Ordered.push (h : Ordered nodeCount (pre ++ [node]) es) {k : HierarchyEdge K}
    (hedge : k.edge = es.size) (hends : k.base < nodeCount ∧ k.adj < nodeCount)
    (hbase : k.base ∉ pre ++ [node]) (hadj : k.adj ∉ pre ++ [node])
    (hpasses : PassesOver es es.size k node) : Ordered nodeCount (pre ++ [node]) (es.push k) where
  edge_eq i e he := by
    rw [Array.getElem?_push] at he
    split at he
    · rename_i hi
      obtain rfl := Option.some.inj he
      rw [hedge, hi]
    · exact h.edge_eq i e he
  ends_lt e he := by
    rcases Array.mem_push.1 he with he | rfl
    · exact h.ends_lt e he
    · exact hends
  passes i e he hskipped := by
    rw [Array.getElem?_push] at he
    split at he
    · rename_i hi
      obtain rfl := Option.some.inj he
      subst hi
      exact ⟨pre, node, List.prefix_rfl, hbase, hadj, hpasses.push k⟩
    · obtain ⟨p, m, hinitial, hb, ha, hover⟩ := h.passes i e he hskipped
      exact ⟨p, m, hinitial, hb, ha, hover.push k⟩

/-- A longer order changes nothing for the shortcuts that are there. -/
theorem HierarchyEdge.Ordered.mono (h : Ordered nodeCount pre es) (hinitial : pre <+: order) :
    Ordered nodeCount order es where
  edge_eq := h.edge_eq
  ends_lt := h.ends_lt
  passes i e he hskipped := by
    obtain ⟨p, m, hp, hrest⟩ := h.passes i e he hskipped
    exact ⟨p, m, hp.trans hinitial, hrest⟩

/-! ## §2. Contractions in progress. -/

namespace Contraction

variable {c : Contraction K}

/-- **Bridging a passage** through the last node of the order, between nodes outside it. -/
theorem ordered_bridge (h : Ordered nodeCount (pre ++ [node]) c.edges) {enter leave : Arc K}
    (henter : Names c.edges node enter) (hleave : Names c.edges node leave)
    (hfrom : enter.node ∉ pre ++ [node]) (hto : leave.node ∉ pre ++ [node]) :
    Ordered nodeCount (pre ++ [node]) (c.bridge node enter leave).edges ∧
      (c.bridge node enter leave).contracted = c.contracted ∧
      ∀ n arc, Names c.edges n arc → Names (c.bridge node enter leave).edges n arc := by
  have hends := And.intro (henter.node_lt h.ends_lt) (hleave.node_lt h.ends_lt)
  unfold Contraction.bridge
  dsimp only
  split
  · exact ⟨h, rfl, fun _ _ hn => hn⟩
  · rename_i hcond
    have hne : enter.node ≠ leave.node := by
      intro heq
      simp [heq] at hcond
    obtain ⟨f, hf, hfirst⟩ := henter
    obtain ⟨f', hf', hsecond⟩ := hleave
    refine ⟨h.push rfl hends hfrom hto ⟨hne, ?_, rfl, rfl, rfl⟩, rfl, fun n arc hn => hn.push _⟩
    exact ⟨enter.edge, leave.edge, f, f', rfl, (Array.getElem?_eq_some_iff.1 hf).1,
      (Array.getElem?_eq_some_iff.1 hf').1, hf, hf', hfirst.symm, hsecond⟩

theorem ordered_bridges {passages : List (Arc K × Arc K)}
    (h : Ordered nodeCount (pre ++ [node]) c.edges)
    (hp : ∀ p ∈ passages, Names c.edges node p.1 ∧ Names c.edges node p.2 ∧
      p.1.node ∉ pre ++ [node] ∧ p.2.node ∉ pre ++ [node]) :
    Ordered nodeCount (pre ++ [node])
        (passages.foldl (fun c p => c.bridge node p.1 p.2) c).edges ∧
      (passages.foldl (fun c p => c.bridge node p.1 p.2) c).contracted = c.contracted := by
  induction passages generalizing c with
  | nil => exact ⟨h, rfl⟩
  | cons p passages ih =>
    obtain ⟨henter, hleave, hfrom, hto⟩ := hp p List.mem_cons_self
    obtain ⟨hstep, hflags, hnames⟩ := ordered_bridge h henter hleave hfrom hto
    obtain ⟨hdone, hkept⟩ := ih hstep fun p' hp' => by
      obtain ⟨henter', hleave', hfree⟩ := hp p' (List.mem_cons_of_mem p hp')
      exact ⟨hnames node p'.1 henter', hnames node p'.2 hleave', hfree⟩
    exact ⟨hdone, hkept.trans hflags⟩

/-- **What contraction keeps**: `pre` lists the nodes that are contracted, and shortcuts respect
that order. -/
structure Ranking (nodeCount : Nat) (pre : List NodeId) (c : Contraction K) : Prop where
  ordered : Ordered nodeCount pre c.edges
  flags : ∀ n ∈ pre, n < nodeCount → c.isContracted n = true
  size_eq : c.contracted.size = nodeCount
  weaves : ∃ R, c.Weaves R

/-- **Contracting one more node.** -/
theorem Ranking.contractNode (h : c.Ranking nodeCount pre) (node : NodeId) :
    (c.contractNode node).Ranking nodeCount (pre ++ [node]) := by
  obtain ⟨R, hweaves⟩ := h.weaves
  have hpassages : ∀ p ∈ c.passages node, Names c.edges node p.1 ∧ Names c.edges node p.2 ∧
      p.1.node ∉ pre ++ [node] ∧ p.2.node ∉ pre ++ [node] := by
    intro p hp
    simp only [passages, List.mem_flatMap, List.mem_map, List.mem_filter] at hp
    obtain ⟨enter, ⟨henter, hfrom⟩, leave, ⟨hleave, hto⟩, rfl⟩ := hp
    -- Only arcs from and to nodes that are not contracted are bridged.
    have hfree : ∀ arc : Arc K, Names c.edges node arc →
        (!c.isContracted arc.node && arc.node != node) = true → arc.node ∉ pre ++ [node] := by
      intro arc hnames hopen hmem
      simp only [Bool.and_eq_true, Bool.not_eq_true', bne_iff_ne, ne_eq] at hopen
      rcases List.mem_append.1 hmem with hmem | hmem
      · rw [h.flags arc.node hmem (hnames.node_lt h.ordered.ends_lt)] at hopen
        cases hopen.1
      · exact hopen.2 (List.mem_singleton.1 hmem)
    have henters := hweaves.into node enter henter
    have hleaves := hweaves.out node leave hleave
    exact ⟨henters, hleaves, hfree enter henters hfrom, hfree leave hleaves hto⟩
  obtain ⟨hordered, hflags⟩ :=
    ordered_bridges (h.ordered.mono (List.prefix_append pre [node])) hpassages
  refine ⟨?_, fun n hn hlt => ?_, ?_, R, hweaves.contractNode node⟩
  · rw [contractNode_eq]
    exact hordered
  · rw [contractNode_eq]
    unfold isContracted
    rw [hflags, Array.getElem?_setIfInBounds]
    by_cases heq : node = n
    · subst heq
      simp [h.size_eq, hlt]
    · have hn : n ∈ pre := by simpa [Ne.symm heq] using hn
      rw [if_neg heq]
      exact h.flags n hn hlt
  · rw [contractNode_eq]
    simp [hflags, h.size_eq]

/-- **Contracting all nodes of an order.** -/
theorem Ranking.contractAll (h : c.Ranking nodeCount pre) (rest : List NodeId) :
    (rest.foldl Contraction.contractNode c).Ranking nodeCount (pre ++ rest) := by
  induction rest generalizing pre c with
  | nil => simpa using h
  | cons n rest ih =>
    have hrest := ih (h.contractNode n)
    rw [List.append_assoc] at hrest
    exact hrest

end Contraction

/-! ## §3. Hierarchies. -/

/-- **What is known of every hierarchy** made from a graph, whatever the weights are. -/
structure Ranked (g : RoadGraph K) (w : Weighting K) (h : Hierarchy K) : Prop where
  edge_eq : ∀ (i : Nat) e, h.edges[i]? = some e → e.edge = i
  ends_lt : ∀ e ∈ h.edges, e.base < g.nodeCount ∧ e.adj < g.nodeCount
  /-- The levels are the nodes' places in an order of contraction. -/
  levels : h.levels.toList.Perm (List.range g.nodeCount)
  passes : ∀ (i : Nat) e, h.edges[i]? = some e → e.skipped.isSome = true →
    ∃ m, PassesOver h.edges i e m ∧ h.level m < h.level e.base ∧ h.level m < h.level e.adj
  tables : h.tables = (h.edges.toList.flatMap openDirections).foldl (listEnds id reversed)
    (noEntries g.nodeCount)

variable {g : RoadGraph K} {w : Weighting K} {h : Hierarchy K}

/-- Before the first contraction there are roads only. -/
theorem ranking_start (hg : g.WellFormed) (w : Weighting K) :
    Contraction.Ranking g.nodeCount []
      ⟨roadTable g w, (roadTable g w).foldl Arcs.addEdge (Arcs.empty g.nodeCount),
        Array.replicate g.nodeCount false⟩ := by
  have hr := roadTable_spec hg w
  refine ⟨⟨hr.edge_eq, hr.ends_lt, fun i e he hskipped => ?_⟩,
    fun n hn => absurd hn List.not_mem_nil, by simp, _, weaves_start g w _ _⟩
  rw [hr.skipped_eq e (Array.mem_of_getElem? he)] at hskipped
  cases hskipped

/-- An order of all nodes, read as levels, has each level once. -/
theorem levels_perm {count : Nat} (hperm : order.Perm (List.range count)) :
    (rankFrom 0 order (Array.replicate count 0)).toList.Perm (List.range count) := by
  have hnodup : order.Nodup := hperm.nodup_iff.2 List.nodup_range
  have hlength : order.length = count := by rw [hperm.length_eq, List.length_range]
  -- The level of a node is its place in the order.
  have hlevels : (rankFrom 0 order (Array.replicate count 0)).toList =
      (List.range count).map fun n => order.idxOf n := by
    refine List.ext_getElem? fun n => ?_
    rw [Array.getElem?_toList, List.getElem?_map]
    by_cases hn : n < count
    · rw [getElem?_levels hperm hn, List.getElem?_range hn]
      rfl
    · rw [Array.getElem?_eq_none (by simpa [size_rankFrom] using Nat.le_of_not_lt hn),
        List.getElem?_eq_none (by simpa using Nat.le_of_not_lt hn)]
      rfl
  rw [hlevels]
  refine (hperm.symm.map _).trans (List.Perm.of_eq ?_)
  refine List.ext_getElem (by simp [hlength]) fun n hn hn' => ?_
  rw [List.getElem_map, List.getElem_range]
  exact hnodup.idxOf_getElem n (by simpa using hn)

/-- **Contraction makes a ranked hierarchy.** -/
theorem ranked_of_contract (hg : g.WellFormed) (hcontract : contract g w = .ok h) :
    Ranked g w h := by
  obtain rfl := Except.ok.inj ((contract_eq g w).symm.trans hcontract)
  have hperm := nodeOrder_perm ((roadTable g w).foldl Arcs.addEdge (Arcs.empty g.nodeCount))
    g.nodeCount
  have hdone := (ranking_start hg w).contractAll (Contraction.nodeOrder
    ((roadTable g w).foldl Arcs.addEdge (Arcs.empty g.nodeCount)) g.nodeCount)
  rw [List.nil_append] at hdone
  generalize Contraction.nodeOrder (_ : Arcs K) g.nodeCount = order at hperm hdone ⊢
  generalize order.foldl Contraction.contractNode (_ : Contraction K) = c at hdone ⊢
  have hedges := (Hierarchy.ofEdges_fields g.edgeCount c.edges
    (rankFrom 0 order (Array.replicate g.nodeCount 0))).1
  have hlevels := (Hierarchy.ofEdges_fields g.edgeCount c.edges
    (rankFrom 0 order (Array.replicate g.nodeCount 0))).2
  have hsize : (rankFrom 0 order (Array.replicate g.nodeCount 0)).size = g.nodeCount := by
    simp [size_rankFrom]
  have hlevel : ∀ n, n < g.nodeCount → (Hierarchy.ofEdges g.edgeCount c.edges
      (rankFrom 0 order (Array.replicate g.nodeCount 0))).level n = order.idxOf n := by
    intro n hn
    unfold Hierarchy.level
    rw [hlevels, getElem?_levels hperm hn]
    rfl
  refine ⟨fun i e he => ?_, fun e he => ?_, ?_, fun i e he hskipped => ?_, ?_⟩
  · exact hdone.ordered.edge_eq i e (hedges ▸ he)
  · exact hdone.ordered.ends_lt e (hedges ▸ he)
  · rw [hlevels]
    exact levels_perm hperm
  · rw [hedges] at he
    obtain ⟨p, m, ⟨q, hq⟩, hbase, hadj, hover⟩ := hdone.ordered.passes i e he hskipped
    have horder : order = p ++ m :: q := by simpa using hq.symm
    have hnodup : (p ++ m :: q).Nodup := horder ▸ hperm.nodup_iff.2 List.nodup_range
    have hm : m < g.nodeCount := List.mem_range.1 (hperm.mem_iff.1 (by simp [horder]))
    have hends := hdone.ordered.ends_lt e (Array.mem_of_getElem? he)
    -- Only the nodes up to the middle one rank as low as it does.
    have habove : ∀ n, n ∉ p ++ [m] → order.idxOf m < order.idxOf n := by
      intro n hn
      rw [mem_snoc_iff_idxOf_le hnodup, ← horder] at hn
      omega
    refine ⟨m, ?_, ?_, ?_⟩
    · rw [hedges]
      exact hover
    · rw [hlevel m hm, hlevel e.base hends.1]
      exact habove _ hbase
    · rw [hlevel m hm, hlevel e.adj hends.2]
      exact habove _ hadj
  · rw [hedges, Hierarchy.tables_ofEdges, hsize]

end RoadSplice

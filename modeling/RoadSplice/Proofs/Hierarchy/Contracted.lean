/-
  RoadSplice.Proofs.Hierarchy.Contracted — what is known of a finished hierarchy.

  The order of contraction is a permutation of the nodes, and the level of a node is its place in
  it.  When all nodes have been contracted, a passage through a node can go around it over nodes
  of higher level; this is all that the search on the hierarchy needs.
-/
import RoadSplice.Proofs.Hierarchy.Contract
import RoadSplice.Proofs.Hierarchy.Meeting
import RoadSplice.Proofs.Hierarchy.Roads
import RoadSplice.Proofs.Hierarchy.UpDown

namespace RoadSplice

open HierarchyEdge

/-! ## §1. Levels. -/

/-- The order of contraction lists every node once. -/
theorem nodeOrder_perm {K : Type} [Scalar K] (arcs : Arcs K) (n : Nat) :
    (Contraction.nodeOrder arcs n).Perm (List.range n) := by
  unfold Contraction.nodeOrder
  refine ((List.mergeSort_perm ((List.range n).map fun v => (arcs.degree v, v)) _).map _).trans ?_
  simp [Function.comp_def]

/-- The levels that an order gives the nodes, counted from some rank on. -/
def rankFrom (rank : Nat) (order : List NodeId) (levels : Array Nat) : Array Nat :=
  (order.zipIdx rank).foldl (fun levels (node, r) => levels.setIfInBounds node r) levels

theorem rankFrom_cons (rank : Nat) (node : NodeId) (order : List NodeId) (levels : Array Nat) :
    rankFrom rank (node :: order) levels =
      rankFrom (rank + 1) order (levels.setIfInBounds node rank) := rfl

theorem size_rankFrom (rank : Nat) (order : List NodeId) (levels : Array Nat) :
    (rankFrom rank order levels).size = levels.size := by
  induction order generalizing rank levels with
  | nil => rfl
  | cons n order ih => rw [rankFrom_cons, ih, Array.size_setIfInBounds]

theorem getElem?_rankFrom_of_not_mem {rank : Nat} {order : List NodeId} {levels : Array Nat}
    {node : NodeId} (h : node ∉ order) : (rankFrom rank order levels)[node]? = levels[node]? := by
  induction order generalizing rank levels with
  | nil => rfl
  | cons n order ih =>
    obtain ⟨hne, hmem⟩ := not_or.1 (mt List.mem_cons.2 h)
    rw [rankFrom_cons, ih hmem, Array.getElem?_setIfInBounds_ne (Ne.symm hne)]

/-- **The level of a node is its place** in the order. -/
theorem getElem?_rankFrom {rank : Nat} {order : List NodeId} {levels : Array Nat} {node : NodeId}
    (hnodup : order.Nodup) (hmem : node ∈ order) (hlt : node < levels.size) :
    (rankFrom rank order levels)[node]? = some (rank + order.idxOf node) := by
  induction order generalizing rank levels with
  | nil => simp at hmem
  | cons n order ih =>
    obtain ⟨hn, hnodup⟩ := List.nodup_cons.1 hnodup
    rw [rankFrom_cons]
    by_cases heq : n = node
    · subst heq
      rw [getElem?_rankFrom_of_not_mem hn, Array.getElem?_setIfInBounds_self_of_lt hlt]
      simp
    · have hmem' : node ∈ order := (List.mem_cons.1 hmem).resolve_left (Ne.symm heq)
      rw [ih hnodup hmem' (by simpa using hlt), List.idxOf_cons_ne _ heq]
      congr 1
      omega

/-- The levels that an order of all nodes gives them. -/
theorem getElem?_levels {order : List NodeId} {count n : Nat}
    (hperm : order.Perm (List.range count)) (hn : n < count) :
    (rankFrom 0 order (Array.replicate count 0))[n]? = some (order.idxOf n) := by
  rw [getElem?_rankFrom (hperm.nodup_iff.2 List.nodup_range)
    (hperm.mem_iff.2 (List.mem_range.2 hn)) (by simpa using hn), Nat.zero_add]

/-- The nodes contracted no later than a node are those of no greater rank. -/
theorem mem_snoc_iff_idxOf_le {p q : List NodeId} {v n : NodeId} (hnodup : (p ++ v :: q).Nodup) :
    n ∈ p ++ [v] ↔ (p ++ v :: q).idxOf n ≤ (p ++ v :: q).idxOf v := by
  have hv : v ∉ p := fun hmem => (List.nodup_append.1 hnodup).2.2 v hmem v (by simp) rfl
  have hrank : (p ++ v :: q).idxOf v = p.length := by
    simp [List.idxOf_append_of_notMem hv]
  rw [hrank, List.mem_append, List.mem_singleton]
  by_cases hn : n ∈ p
  · rw [List.idxOf_append_of_mem hn]
    exact iff_of_true (.inl hn) (List.idxOf_lt_length_of_mem hn).le
  · rw [List.idxOf_append_of_notMem hn]
    by_cases heq : n = v
    · subst heq
      simp
    · rw [List.idxOf_cons_ne _ (Ne.symm heq)]
      simp [hn, heq]

/-! ## §2. After the last contraction. -/

/-- **What is known of a hierarchy** made from a graph. -/
structure Contracted (g : RoadGraph Exact) (w : Weighting Exact) (h : Hierarchy Exact) :
    Prop where
  nodeCount_eq : h.nodeCount = g.nodeCount
  grown : Grown (roadTable g w) h.edges
  roads : RoadTable (roadTable g w) g.nodeCount
  nonneg : NonnegTable (roadTable g w)
  mirrors : Mirrors id reversed g.nodeCount h.edges h.tables
  leveled : Leveled h.edges h.level g.nodeCount
  level_lt : ∀ n, n < g.nodeCount → h.level n < g.nodeCount

/-- The passages through a node, in the order of contraction, are what levels ask for. -/
theorem leveled_of_contracting {roads : Array (HierarchyEdge Exact)} {nodeCount : Nat}
    {order : List NodeId} {c : Contraction Exact} (hr : RoadTable roads nodeCount)
    (hn : NonnegTable roads) (hc : Contraction.Contracting roads nodeCount order c)
    (hperm : order.Perm (List.range nodeCount)) :
    Leveled c.edges (fun n => order.idxOf n) nodeCount := by
  have hmem : ∀ {n}, n < nodeCount → n ∈ order := fun hn =>
    hperm.mem_iff.2 (List.mem_range.2 hn)
  have hlt : ∀ f, Open c.edges f → f.base < nodeCount ∧ f.adj < nodeCount := fun f hf =>
    hc.grown.ends_lt hr hf.inTable
  refine ⟨fun f hf => ?_, fun f hf heq => ?_, fun f hf _ => hc.grown.nonneg hn hf,
    fun f k hf hk hjoin hbase hadj => ?_⟩
  · have hrank := List.idxOf_lt_length_of_mem (hmem (hlt f hf).2)
    rwa [hperm.length_eq, List.length_range] at hrank
  · exact hf.no_loop ((List.idxOf_inj (hmem (hlt f hf).1)).1 heq)
  · -- When the middle node was contracted the nodes before it were those of lower rank.
    obtain ⟨p, q, hsplit⟩ := List.append_of_mem (hmem (hlt f hf).2)
    have hnodup : (p ++ f.adj :: q).Nodup := hsplit ▸ hperm.nodup_iff.2 List.nodup_range
    have hB : ∀ n, n ∈ p ++ [f.adj] ↔ order.idxOf n ≤ order.idxOf f.adj := fun n => by
      rw [hsplit]
      exact mem_snoc_iff_idxOf_le hnodup
    have hby := hc.bypassed p f.adj q hsplit (Arcs.arcFrom f) (Arcs.arcTo k)
      ⟨⟨f, hf, rfl, rfl⟩, ⟨k, hk, hjoin.symm, rfl⟩, fun hin => hbase.not_ge ((hB _).1 hin),
        fun hin => hadj.not_ge ((hB _).1 hin)⟩
    rwa [show (fun n => n ∈ p ++ [f.adj]) = fun n => order.idxOf n ≤ order.idxOf f.adj from
      funext fun n => propext (hB n)] at hby

/-- Before the first contraction. -/
theorem contracting_start {roads : Array (HierarchyEdge Exact)} {nodeCount : Nat}
    (hr : RoadTable roads nodeCount) :
    Contraction.Contracting roads nodeCount []
      ⟨roads, roads.foldl Arcs.addEdge (Arcs.empty nodeCount), Array.replicate nodeCount false⟩ := by
  refine ⟨⟨.start, ?_⟩, by simp, fun n => ?_, fun p v q h => by simp at h⟩
  · rw [Arcs.tables_addEdges]
    exact mirrors_listing hr.ends_lt
  · simp [Contraction.isContracted, Array.getElem?_replicate]
    split <;> simp

/-- What contraction makes: the edges that are left when all nodes are contracted, and the places of
the nodes in the order in which they are.  Every id has its road, so the table of roads is made. -/
theorem contract_eq {K : Type} [Scalar K] (g : RoadGraph K) (w : Weighting K) :
    contract g w =
      let arcs := (roadTable g w).foldl Arcs.addEdge (Arcs.empty g.nodeCount)
      let order := Contraction.nodeOrder arcs g.nodeCount
      .ok (Hierarchy.ofEdges g.edgeCount
        (order.foldl Contraction.contractNode
          ⟨roadTable g w, arcs, Array.replicate g.nodeCount false⟩).edges
        (rankFrom 0 order (Array.replicate g.nodeCount 0))) := by
  obtain ⟨views, hviews, htable⟩ := mapM_edge_none g w
  unfold contract
  rw [hviews]
  show Except.ok _ = _
  rw [htable]
  rfl

/-- **What contraction has done** when it ends: all nodes are contracted, one after the other. -/
theorem contracting_of_contract {g : RoadGraph Exact} {w : Weighting Exact} {h : Hierarchy Exact}
    (hg : g.WellFormed) (hcontract : contract g w = .ok h) :
    ∃ order c, order.Perm (List.range g.nodeCount) ∧
      Contraction.Contracting (roadTable g w) g.nodeCount order c ∧
      h = Hierarchy.ofEdges g.edgeCount c.edges
        (rankFrom 0 order (Array.replicate g.nodeCount 0)) := by
  have hr := roadTable_spec hg w
  have hperm := nodeOrder_perm ((roadTable g w).foldl Arcs.addEdge (Arcs.empty g.nodeCount))
    g.nodeCount
  have hdone := (contracting_start hr).contractAll hr
    (fun n hn => List.mem_range.1 (hperm.mem_iff.1 hn)) (hperm.nodup_iff.2 List.nodup_range)
  exact ⟨_, _, hperm, hdone, Except.ok.inj (hcontract.symm.trans (contract_eq g w))⟩

/-- **A hierarchy grows from the roads**, whatever they weigh. -/
theorem grown_of_contract {g : RoadGraph Exact} {w : Weighting Exact} {h : Hierarchy Exact}
    (hg : g.WellFormed) (hcontract : contract g w = .ok h) : Grown (roadTable g w) h.edges := by
  obtain ⟨order, c, -, hdone, rfl⟩ := contracting_of_contract hg hcontract
  rw [(Hierarchy.ofEdges_fields _ _ _).1]
  exact hdone.grown

/-- **Contraction succeeds**, and what it makes is known. -/
theorem contract_spec {g : RoadGraph Exact} (hg : g.WellFormed) (hd : NonnegDistances g)
    (w : SpeedWeighting Exact) :
    ∃ h, contract g w.toWeighting = .ok h ∧ Contracted g w.toWeighting h := by
  have hr := roadTable_spec hg w.toWeighting
  have hn := nonnegTable_roadTable hd w
  have hcontract := contract_eq g w.toWeighting
  obtain ⟨order, c, hperm, hdone, heq⟩ := contracting_of_contract hg hcontract
  refine ⟨_, hcontract, ?_⟩
  rw [heq]
  let levels := rankFrom 0 order (Array.replicate g.nodeCount 0)
  have hsize : levels.size = g.nodeCount := by simp [levels, size_rankFrom]
  have hends : ∀ f, InTable c.edges f → f.base < g.nodeCount ∧ f.adj < g.nodeCount :=
    fun f hf => hdone.grown.ends_lt hr hf
  have hstored : ∀ e ∈ c.edges, e.base < levels.size ∧ e.adj < levels.size := fun e he =>
    hsize ▸ hends e (.inl he)
  obtain ⟨hedges, hlevels, hmirrors⟩ := Hierarchy.ofEdges_spec g.edgeCount hstored
  -- The level of a node is its place in the order of contraction.
  have hlevel : ∀ n, n < g.nodeCount →
      (Hierarchy.ofEdges g.edgeCount c.edges levels).level n = order.idxOf n := fun n hn => by
    rw [Hierarchy.level, hlevels, getElem?_levels hperm hn]
    rfl
  refine ⟨?_, ?_, hr, hn, ?_, ?_, fun n hn => ?_⟩
  · rw [Hierarchy.nodeCount, hlevels, hsize]
  · rw [hedges]
    exact hdone.grown
  · rw [hsize] at hmirrors
    rw [hedges]
    exact hmirrors
  · rw [hedges]
    exact (leveled_of_contracting hr hn hdone hperm).congr fun f hf =>
      ⟨(hlevel _ (hends f hf.inTable).1).symm, (hlevel _ (hends f hf.inTable).2).symm⟩
  · rw [hlevel n hn]
    have hrank := List.idxOf_lt_length_of_mem (hperm.mem_iff.2 (List.mem_range.2 hn))
    rwa [hperm.length_eq, List.length_range] at hrank

end RoadSplice

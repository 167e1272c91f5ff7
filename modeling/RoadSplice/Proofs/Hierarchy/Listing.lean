/-
  RoadSplice.Proofs.Hierarchy.Listing — edges listed at both their ends.

  A contraction in progress lists arcs, and a finished hierarchy lists edges, at the two ends of
  every open edge.  Both are one listing with different entries: `Mirrors` says that the lists
  hold an entry for each open edge of a table and nothing else.
-/
import RoadSplice.Hierarchy.Contract
import RoadSplice.Proofs.Hierarchy.Table

namespace RoadSplice

open HierarchyEdge

/-! ## §1. Listing. -/

section Listing

variable {α K : Type} {F G : HierarchyEdge Exact → α} {nodeCount : Nat}

/-- The entries at a node. -/
def listedAt (table : Array (Array α)) (n : NodeId) : List α := (table[n]?.getD #[]).toList

/-- Lists an edge at the node where it begins and at the node where it ends. -/
def listEnds (F G : HierarchyEdge K → α) (t : Array (Array α) × Array (Array α))
    (f : HierarchyEdge K) : Array (Array α) × Array (Array α) :=
  (t.1.modify f.base (·.push (F f)), t.2.modify f.adj (·.push (G f)))

/-- The directions in which an edge is open. -/
def openDirections [Scalar K] (e : HierarchyEdge K) : List (HierarchyEdge K) :=
  if e.base = e.adj then [] else [e, e.reversed].filter fun f => Scalar.isFinite f.weightForward

/-- An edge has at most its two directions. -/
theorem eq_or_reversed_of_mem [Scalar K] {e f : HierarchyEdge K} (h : f ∈ openDirections e) :
    f = e ∨ f = e.reversed := by
  unfold openDirections at h
  split at h
  · cases h
  · exact List.mem_pair.1 (List.mem_of_mem_filter h)

theorem mem_openDirections {e f : HierarchyEdge Exact} :
    f ∈ openDirections e ↔ (f = e ∨ f = e.reversed) ∧ f.base ≠ f.adj ∧ f.weightForward.IsReal := by
  unfold openDirections
  -- A loop is open in neither direction.
  by_cases hloop : e.base = e.adj
  · rw [if_pos hloop]
    constructor
    · simp
    · rintro ⟨rfl | rfl, hne, -⟩
      · exact absurd hloop hne
      · exact absurd hloop.symm hne
  · rw [if_neg hloop]
    simp only [List.mem_filter, List.mem_cons, List.not_mem_nil, or_false, Exact.isFinite_iff]
    constructor
    · rintro ⟨rfl | rfl, hfin⟩
      · exact ⟨.inl rfl, hloop, hfin⟩
      · exact ⟨.inr rfl, fun heq => hloop heq.symm, hfin⟩
    · rintro ⟨hor, -, hfin⟩
      exact ⟨hor, hfin⟩

/-- **The lists of a table**: an entry for each open edge at its two ends. -/
structure Mirrors (F G : HierarchyEdge Exact → α) (nodeCount : Nat)
    (es : Array (HierarchyEdge Exact)) (t : Array (Array α) × Array (Array α)) : Prop where
  size_out : t.1.size = nodeCount
  size_inc : t.2.size = nodeCount
  mem_out : ∀ u a, a ∈ listedAt t.1 u ↔ ∃ f, Open es f ∧ f.base = u ∧ a = F f
  mem_inc : ∀ v a, a ∈ listedAt t.2 v ↔ ∃ f, Open es f ∧ f.adj = v ∧ a = G f

/-- **One more entry** at a node. -/
theorem listedAt_modify {table : Array (Array α)} {n : NodeId} (hn : n < table.size) (b : α)
    (m : NodeId) : listedAt (table.modify n (·.push b)) m =
      listedAt table m ++ if n = m then [b] else [] := by
  unfold listedAt
  rw [Array.getElem?_modify]
  by_cases h : n = m
  · subst h
    simp [hn]
  · simp [h]

theorem mem_listedAt_modify {table : Array (Array α)} {n m : NodeId} {a b : α}
    (hn : n < table.size) :
    a ∈ listedAt (table.modify n (·.push b)) m ↔ a ∈ listedAt table m ∨ (n = m ∧ a = b) := by
  rw [listedAt_modify hn]
  by_cases h : n = m <;> simp [h]

theorem listed_of_modify {table : Array (Array α)} {n m : NodeId} {a b : α}
    (h : a ∈ listedAt (table.modify n (·.push b)) m) : a ∈ listedAt table m ∨ (n = m ∧ a = b) := by
  unfold listedAt at h ⊢
  rw [Array.getElem?_modify] at h
  by_cases hn : n = m
  · subst hn
    cases hrow : table[n]? with
    | none => simp [hrow] at h
    | some row => simpa [hrow] using h
  · exact .inl (by simpa [hn] using h)

/-- **What is listed was listed before or is an end of an edge**, also where a node has no lists. -/
theorem listed_of_listEnds {F G : HierarchyEdge K → α} (fs : List (HierarchyEdge K))
    (t : Array (Array α) × Array (Array α)) :
    (∀ u a, a ∈ listedAt (fs.foldl (listEnds F G) t).1 u →
        a ∈ listedAt t.1 u ∨ ∃ f ∈ fs, f.base = u ∧ a = F f) ∧
      (∀ v a, a ∈ listedAt (fs.foldl (listEnds F G) t).2 v →
        a ∈ listedAt t.2 v ∨ ∃ f ∈ fs, f.adj = v ∧ a = G f) := by
  induction fs generalizing t with
  | nil => exact ⟨fun _ _ h => .inl h, fun _ _ h => .inl h⟩
  | cons f fs ih =>
    obtain ⟨hout, hinc⟩ := ih (listEnds F G t f)
    refine ⟨fun u a ha => ?_, fun v a ha => ?_⟩
    · obtain ha | ⟨k, hk, hrest⟩ := hout u a ha
      · obtain ha | hf := listed_of_modify ha
        · exact .inl ha
        · exact .inr ⟨f, List.mem_cons_self, hf⟩
      · exact .inr ⟨k, List.mem_cons_of_mem f hk, hrest⟩
    · obtain ha | ⟨k, hk, hrest⟩ := hinc v a ha
      · obtain ha | hf := listed_of_modify ha
        · exact .inl ha
        · exact .inr ⟨f, List.mem_cons_self, hf⟩
      · exact .inr ⟨k, List.mem_cons_of_mem f hk, hrest⟩

/-- What listing some edges adds to the lists. -/
theorem mem_listEnds (fs : List (HierarchyEdge Exact))
    (t : Array (Array α) × Array (Array α)) (hout : t.1.size = nodeCount)
    (hinc : t.2.size = nodeCount) (hfs : ∀ f ∈ fs, f.base < nodeCount ∧ f.adj < nodeCount) :
    ((fs.foldl (listEnds F G) t).1.size = nodeCount ∧
        (fs.foldl (listEnds F G) t).2.size = nodeCount) ∧
      (∀ u a, a ∈ listedAt (fs.foldl (listEnds F G) t).1 u ↔
        a ∈ listedAt t.1 u ∨ ∃ f ∈ fs, f.base = u ∧ a = F f) ∧
      (∀ v a, a ∈ listedAt (fs.foldl (listEnds F G) t).2 v ↔
        a ∈ listedAt t.2 v ∨ ∃ f ∈ fs, f.adj = v ∧ a = G f) := by
  induction fs generalizing t with
  | nil => exact ⟨⟨hout, hinc⟩, by simp, by simp⟩
  | cons f fs ih =>
    obtain ⟨hbase, hadj⟩ := hfs f (by simp)
    obtain ⟨hsizes, houts, hincs⟩ := ih (listEnds F G t f) (by simpa [listEnds] using hout)
      (by simpa [listEnds] using hinc) fun f' hf' => hfs f' (by simp [hf'])
    refine ⟨hsizes, fun u a => ?_, fun v a => ?_⟩
    · rw [List.foldl_cons, houts, listEnds, mem_listedAt_modify (hout ▸ hbase)]
      simp only [List.mem_cons, exists_eq_or_imp, or_assoc]
    · rw [List.foldl_cons, hincs, listEnds, mem_listedAt_modify (hinc ▸ hadj)]
      simp only [List.mem_cons, exists_eq_or_imp, or_assoc]

/-- The lists without entries. -/
def noEntries (nodeCount : Nat) : Array (Array α) × Array (Array α) :=
  (Array.replicate nodeCount #[], Array.replicate nodeCount #[])

theorem not_listed_noEntries (nodeCount : Nat) (u : NodeId) (a : α) :
    a ∉ listedAt (Array.replicate nodeCount #[]) u := by
  unfold listedAt
  rw [Array.getElem?_replicate]
  split <;> simp

/-- **Listing all edges of a table** makes its lists. -/
theorem mirrors_listing {es : Array (HierarchyEdge Exact)}
    (hes : ∀ e ∈ es, e.base < nodeCount ∧ e.adj < nodeCount) :
    Mirrors F G nodeCount es
      ((es.toList.flatMap openDirections).foldl (listEnds F G) (noEntries nodeCount)) := by
  have hmem : ∀ f, f ∈ es.toList.flatMap openDirections ↔ Open es f := fun f => by
    simp only [List.mem_flatMap, mem_openDirections, Array.mem_toList_iff]
    constructor
    · rintro ⟨e, he, rfl | rfl, hne, hfin⟩
      · exact ⟨.inl he, hne, hfin⟩
      · exact ⟨.inr (by rwa [reversed_reversed]), hne, hfin⟩
    · rintro ⟨hf | hf, hne, hfin⟩
      · exact ⟨f, hf, .inl rfl, hne, hfin⟩
      · exact ⟨_, hf, .inr (reversed_reversed f).symm, hne, hfin⟩
  have hempty := not_listed_noEntries (α := α) nodeCount
  obtain ⟨⟨hout, hinc⟩, houts, hincs⟩ := mem_listEnds (F := F) (G := G)
    (es.toList.flatMap openDirections) (noEntries nodeCount)
    (Array.size_replicate : _ = nodeCount) (Array.size_replicate : _ = nodeCount) fun f hf => by
      obtain ⟨hf | hf, -, -⟩ := (hmem f).1 hf
      · exact hes f hf
      · exact (hes _ hf).symm
  refine ⟨hout, hinc, fun u a => ?_, fun v a => ?_⟩
  · rw [houts]
    simp [noEntries, hempty, hmem]
  · rw [hincs]
    simp [noEntries, hempty, hmem]

/-- **Listing a new shortcut** as well. -/
theorem Mirrors.push {es : Array (HierarchyEdge Exact)} {t : Array (Array α) × Array (Array α)}
    (h : Mirrors F G nodeCount es t) {id : EdgeId} {f₁ f₂ : HierarchyEdge Exact}
    (h₁ : Open es f₁) (h₂ : Open es f₂) (hne : f₁.base ≠ f₂.adj)
    (hbase : f₁.base < nodeCount) (hadj : f₂.adj < nodeCount) :
    Mirrors F G nodeCount (es.push (shortcut id f₁ f₂)) (listEnds F G t (shortcut id f₁ f₂)) where
  size_out := by simpa [listEnds] using h.size_out
  size_inc := by simpa [listEnds] using h.size_inc
  mem_out u a := by
    rw [listEnds, mem_listedAt_modify (h.size_out ▸ hbase), h.mem_out]
    simp only [open_push_shortcut h₁ h₂ hne, or_and_right, exists_or, exists_eq_left]
  mem_inc v a := by
    rw [listEnds, mem_listedAt_modify (h.size_inc ▸ hadj), h.mem_inc]
    simp only [open_push_shortcut h₁ h₂ hne, or_and_right, exists_or, exists_eq_left]

end Listing

/-! ## §2. Arcs. -/

namespace Arcs

variable {K : Type}

/-- An edge as a way to the node to which it leads. -/
def arcTo (f : HierarchyEdge K) : Arc K :=
  ⟨f.adj, f.edge, f.weightForward, f.millisForward, f.distance⟩

/-- An edge as a way from the node where it begins. -/
def arcFrom (f : HierarchyEdge K) : Arc K :=
  ⟨f.base, f.edge, f.weightForward, f.millisForward, f.distance⟩

/-- The two lists of arcs. -/
def tables (a : Arcs K) : Array (Array (Arc K)) × Array (Array (Arc K)) := (a.out, a.inc)

variable [Scalar K]

theorem tables_addEdge (a : Arcs K) (e : HierarchyEdge K) :
    (a.addEdge e).tables = (openDirections e).foldl (listEnds arcTo arcFrom) a.tables := by
  unfold addEdge openDirections
  by_cases hloop : e.base = e.adj
  · simp [hloop]
  · simp only [hloop, ↓reduceIte, List.filter_cons, List.filter_nil]
    rw [show e.reversed.weightForward = e.weightBackward from rfl]
    cases Scalar.isFinite e.weightForward <;> cases Scalar.isFinite e.weightBackward <;> rfl

theorem tables_addEdges (a : Arcs K) (es : Array (HierarchyEdge K)) :
    (es.foldl addEdge a).tables =
      (es.toList.flatMap openDirections).foldl (listEnds arcTo arcFrom) a.tables := by
  rw [List.foldl_flatMap, ← Array.foldl_toList]
  exact (List.foldl_hom tables fun a e => (tables_addEdge a e).symm).symm

end Arcs

/-! ## §3. Hierarchies. -/

namespace Hierarchy

variable {K : Type}

/-- The two lists of edges. -/
def tables (h : Hierarchy K) :
    Array (Array (HierarchyEdge K)) × Array (Array (HierarchyEdge K)) := (h.out, h.inc)

variable [Scalar K]

theorem tables_list (h : Hierarchy K) (e : HierarchyEdge K) :
    (h.list e).tables = (openDirections e).foldl (listEnds id reversed) h.tables := by
  unfold list openDirections
  by_cases hloop : e.base = e.adj
  · simp [hloop]
  · simp only [hloop, ↓reduceIte, List.filter_cons, List.filter_nil]
    rw [show e.reversed.weightForward = e.weightBackward from rfl]
    cases Scalar.isFinite e.weightForward <;> cases Scalar.isFinite e.weightBackward <;>
      simp [listEnds, tables, reversed_reversed] <;> exact ⟨rfl, rfl⟩

theorem tables_listEdges (h : Hierarchy K) (es : List (HierarchyEdge K)) :
    (es.foldl list h).tables =
      (es.flatMap openDirections).foldl (listEnds id reversed) h.tables := by
  rw [List.foldl_flatMap]
  exact (List.foldl_hom tables fun h e => (tables_list h e).symm).symm

/-- Listing changes the lists only. -/
theorem list_fields (h : Hierarchy K) (e : HierarchyEdge K) :
    (h.list e).edges = h.edges ∧ (h.list e).levels = h.levels := by
  unfold list
  by_cases hloop : e.base = e.adj
  · simp [hloop]
  · simp only [hloop, ↓reduceIte]
    cases Scalar.isFinite e.weightForward <;> cases Scalar.isFinite e.weightBackward <;>
      exact ⟨rfl, rfl⟩

/-- A finished hierarchy keeps its edges and levels. -/
theorem ofEdges_fields (baseEdgeCount : Nat) (es : Array (HierarchyEdge K)) (levels : Array Nat) :
    (ofEdges baseEdgeCount es levels).edges = es ∧
      (ofEdges baseEdgeCount es levels).levels = levels := by
  have hfields : ∀ (fs : List (HierarchyEdge K)) (h : Hierarchy K),
      (fs.foldl list h).edges = h.edges ∧ (fs.foldl list h).levels = h.levels := by
    intro fs
    induction fs with
    | nil => exact fun h => ⟨rfl, rfl⟩
    | cons f fs ih =>
      intro h
      obtain ⟨hedges, hlevels⟩ := ih (h.list f)
      obtain ⟨hedges', hlevels'⟩ := list_fields h f
      exact ⟨hedges.trans hedges', hlevels.trans hlevels'⟩
  unfold ofEdges
  rw [← Array.foldl_toList]
  exact hfields _ _

/-- The lists of a finished hierarchy. -/
theorem tables_ofEdges (baseEdgeCount : Nat) (es : Array (HierarchyEdge K)) (levels : Array Nat) :
    (ofEdges baseEdgeCount es levels).tables =
      (es.toList.flatMap openDirections).foldl (listEnds id reversed) (noEntries levels.size) := by
  unfold ofEdges
  rw [← Array.foldl_toList, tables_listEdges]
  rfl

/-- **A finished hierarchy** keeps its edges and levels and lists every open edge. -/
theorem ofEdges_spec (baseEdgeCount : Nat) {es : Array (HierarchyEdge Exact)}
    {levels : Array Nat} (hes : ∀ e ∈ es, e.base < levels.size ∧ e.adj < levels.size) :
    (ofEdges baseEdgeCount es levels).edges = es ∧
      (ofEdges baseEdgeCount es levels).levels = levels ∧
      Mirrors id reversed levels.size es (ofEdges baseEdgeCount es levels).tables := by
  refine ⟨(ofEdges_fields _ _ _).1, (ofEdges_fields _ _ _).2, ?_⟩
  rw [tables_ofEdges]
  exact mirrors_listing hes

end Hierarchy

end RoadSplice

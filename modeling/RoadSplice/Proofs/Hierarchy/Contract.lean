/-
  RoadSplice.Proofs.Hierarchy.Contract — what contraction leaves behind.

  `Contracting` is the invariant of a contraction in progress: the table has grown from the roads
  by shortcuts, the arcs mirror the table, and every passage through a contracted node has a way
  around it over nodes that were contracted later or not at all.  Contracting one more node keeps
  it: bridging the pairs of arcs at the node only adds edges between nodes that are not yet
  contracted.
-/
import RoadSplice.Proofs.Hierarchy.Bypass

namespace RoadSplice.Contraction

open HierarchyEdge Arcs

variable {roads : Array (HierarchyEdge Exact)} {nodeCount : Nat} {c c' c'' : Contraction Exact}
  {B : NodeId → Prop} {node : NodeId}

/-! ## §1. Bridging one passage. -/

/-- The table has grown from the roads, and the arcs mirror it. -/
structure Sound (roads : Array (HierarchyEdge Exact)) (nodeCount : Nat) (c : Contraction Exact) :
    Prop where
  grown : Grown roads c.edges
  mirrors : Mirrors arcTo arcFrom nodeCount c.edges c.arcs.tables

/-- What bridging does to the table: open edges stay open, and new ones touch no node of a set. -/
structure Extends (B : NodeId → Prop) (c c' : Contraction Exact) : Prop where
  stays : ∀ f, Open c.edges f → Open c'.edges f
  fresh : ∀ f, Open c'.edges f → Open c.edges f ∨ (¬ B f.base ∧ ¬ B f.adj)
  flags : c'.contracted = c.contracted

theorem Extends.refl (B : NodeId → Prop) (c : Contraction Exact) : Extends B c c :=
  ⟨fun _ hf => hf, fun _ hf => .inl hf, rfl⟩

theorem Extends.trans (h : Extends B c c') (h' : Extends B c' c'') : Extends B c c'' where
  stays f hf := h'.stays f (h.stays f hf)
  fresh f hf := (h'.fresh f hf).elim (h.fresh f) .inr
  flags := h'.flags.trans h.flags

/-- A passage through a node: an open edge that enters it and one that leaves it, from and to
nodes outside a set. -/
structure Passage (es : Array (HierarchyEdge Exact)) (B : NodeId → Prop) (node : NodeId)
    (enter leave : Arc Exact) : Prop where
  enters : ∃ f, Open es f ∧ f.adj = node ∧ enter = arcFrom f
  leaves : ∃ g, Open es g ∧ g.base = node ∧ leave = arcTo g
  enter_free : ¬ B enter.node
  leave_free : ¬ B leave.node

/-- **Bridging a passage** leaves a way around it. -/
theorem bridge_spec (hr : RoadTable roads nodeCount) (hs : Sound roads nodeCount c)
    (hB : ∀ n, B n ↔ n = node ∨ c.isContracted n = true) {enter leave : Arc Exact}
    (hp : Passage c.edges B node enter leave) :
    Sound roads nodeCount (c.bridge node enter leave) ∧
      Extends B c (c.bridge node enter leave) ∧
      Bypassed (c.bridge node enter leave).edges B enter leave := by
  obtain ⟨f, hf, hfn, rfl⟩ := hp.enters
  obtain ⟨g, hg, hgn, rfl⟩ := hp.leaves
  unfold bridge
  by_cases hcond : ((arcFrom f).node = (arcTo g).node
      || hasWitness c.arcs c.isContracted (arcFrom f).node (arcTo g).node node
        ((arcFrom f).weight + (arcTo g).weight)) = true
  · -- No shortcut: the passage comes back to where it began, or the search has found a way around.
    rw [if_pos hcond]
    refine ⟨hs, .refl B c, ?_⟩
    simp only [Bool.or_eq_true, decide_eq_true_eq] at hcond
    obtain heq | hwitness := hcond
    · exact .inl heq
    · refine bypassed_of_witness hs.mirrors hB hp.enter_free fun a b ha hb => ?_
      rw [← Exact.real_add, ← ha, ← hb]
      exact hwitness
  · -- The shortcut is the way around.
    rw [if_neg hcond]
    simp only [Bool.or_eq_true, decide_eq_true_eq, not_or] at hcond
    have hne : f.base ≠ g.adj := hcond.1
    have hopen : ∀ {k}, Open (c.edges.push (shortcut c.edges.size f g)) k ↔
        Open c.edges k ∨ k = shortcut c.edges.size f g := open_push_shortcut hf hg hne
    have hbase := (hs.grown.ends_lt hr hf.inTable).1
    have hadj := (hs.grown.ends_lt hr hg.inTable).2
    refine ⟨⟨hs.grown.push hf hg (hfn.trans hgn.symm) hne, ?_⟩, ⟨?_, ?_, rfl⟩, ?_⟩
    · exact hs.mirrors.push hf hg hne hbase hadj
    · exact fun k hk => hopen.2 (.inl hk)
    · intro k hk
      obtain hk | rfl := hopen.1 hk
      · exact .inl hk
      · exact .inr ⟨hp.enter_free, hp.leave_free⟩
    · refine .inr fun a b ha hb => ⟨a + b, .single ⟨_, hopen.2 (.inr rfl), rfl, rfl, ?_,
        hp.leave_free⟩, le_rfl⟩
      show f.weightForward + g.weightForward = _
      rw [show f.weightForward = .real a from ha, show g.weightForward = .real b from hb,
        Exact.real_add]

/-! ## §2. Contracting one node. -/

/-- **Bridging some passages** leaves ways around all of them. -/
theorem bridges_spec (hr : RoadTable roads nodeCount) (passages : List (Arc Exact × Arc Exact))
    (hs : Sound roads nodeCount c) (hB : ∀ n, B n ↔ n = node ∨ c.isContracted n = true)
    (hp : ∀ p ∈ passages, Passage c.edges B node p.1 p.2) :
    Sound roads nodeCount (passages.foldl (fun c p => c.bridge node p.1 p.2) c) ∧
      Extends B c (passages.foldl (fun c p => c.bridge node p.1 p.2) c) ∧
      ∀ p ∈ passages,
        Bypassed (passages.foldl (fun c p => c.bridge node p.1 p.2) c).edges B p.1 p.2 := by
  induction passages generalizing c with
  | nil => exact ⟨hs, .refl B c, by simp⟩
  | cons p passages ih =>
    obtain ⟨hs', hext, hby⟩ := bridge_spec hr hs hB (hp p (by simp))
    obtain ⟨hs'', hext', hbys⟩ := ih hs'
      (fun n => by rw [hB, isContracted, isContracted, hext.flags])
      fun p' hp' => by
        obtain ⟨⟨f, hf, hfeq⟩, ⟨g, hg, hgeq⟩, hef, hlf⟩ := hp p' (by simp [hp'])
        exact ⟨⟨f, hext.stays f hf, hfeq⟩, ⟨g, hext.stays g hg, hgeq⟩, hef, hlf⟩
    refine ⟨hs'', hext.trans hext', fun p' hp' => ?_⟩
    obtain rfl | hp' := List.mem_cons.1 hp'
    · exact hby.mono hext'.stays
    · exact hbys p' hp'

/-- The passages that contracting a node looks at. -/
def passages {K : Type} (c : Contraction K) (node : NodeId) : List (Arc K × Arc K) :=
  let open? (a : Arc K) : Bool := !c.isContracted a.node && a.node != node
  ((c.arcs.into node).filter open?).flatMap fun enter =>
    ((c.arcs.outOf node).filter open?).map fun leave => (enter, leave)

theorem contractNode_eq {K : Type} [Scalar K] (c : Contraction K) (node : NodeId) :
    c.contractNode node =
      { (c.passages node).foldl (fun c p => c.bridge node p.1 p.2) c with
        contracted := ((c.passages node).foldl (fun c p => c.bridge node p.1 p.2) c).contracted
          |>.setIfInBounds node true } := by
  unfold contractNode passages
  simp only [List.foldl_flatMap, List.foldl_map]

theorem mem_passages (hs : Sound roads nodeCount c)
    (hB : ∀ n, B n ↔ n = node ∨ c.isContracted n = true) {enter leave : Arc Exact} :
    (enter, leave) ∈ c.passages node ↔ Passage c.edges B node enter leave := by
  have hfree : ∀ a : Arc Exact, (!c.isContracted a.node && a.node != node) = true ↔ ¬ B a.node := by
    intro a
    rw [hB]
    simp [not_or, and_comm]
  unfold passages
  simp only [List.mem_flatMap, List.mem_map, List.mem_filter, hfree, Prod.mk.injEq]
  constructor
  · rintro ⟨_, ⟨hin, hfin⟩, _, ⟨hout, hfout⟩, rfl, rfl⟩
    exact ⟨(hs.mirrors.mem_inc node _).1 hin, (hs.mirrors.mem_out node _).1 hout, hfin, hfout⟩
  · rintro ⟨hin, hout, hfin, hfout⟩
    exact ⟨enter, ⟨(hs.mirrors.mem_inc node _).2 hin, hfin⟩, leave,
      ⟨(hs.mirrors.mem_out node _).2 hout, hfout⟩, rfl, rfl⟩

/-! ## §3. Contracting one node after another. -/

/-- **The invariant**: `pre` lists the contracted nodes in their order. -/
structure Contracting (roads : Array (HierarchyEdge Exact)) (nodeCount : Nat) (pre : List NodeId)
    (c : Contraction Exact) : Prop extends Sound roads nodeCount c where
  size_eq : c.contracted.size = nodeCount
  flags : ∀ n, c.isContracted n = true ↔ n ∈ pre
  /-- Passages through a node lead around it over nodes that were not yet contracted. -/
  bypassed : ∀ p v q, pre = p ++ v :: q → ∀ enter leave,
    Passage c.edges (· ∈ p ++ [v]) v enter leave →
      Bypassed c.edges (· ∈ p ++ [v]) enter leave

/-- **Contracting one more node** keeps the invariant. -/
theorem Contracting.contractNode {pre : List NodeId} (h : Contracting roads nodeCount pre c)
    (hr : RoadTable roads nodeCount) (hnode : node < nodeCount) (hpre : node ∉ pre) :
    Contracting roads nodeCount (pre ++ [node]) (c.contractNode node) := by
  have hB : ∀ n, n ∈ pre ++ [node] ↔ n = node ∨ c.isContracted n = true := fun n => by
    rw [h.flags, List.mem_append, List.mem_singleton, or_comm]
  have hmem : ∀ enter leave, (enter, leave) ∈ c.passages node ↔
      Passage c.edges (· ∈ pre ++ [node]) node enter leave := fun _ _ => mem_passages h.toSound hB
  obtain ⟨hs, hext, hby⟩ := bridges_spec hr (c.passages node) h.toSound hB
    fun p hp => (hmem p.1 p.2).1 hp
  rw [contractNode_eq]
  generalize (c.passages node).foldl (fun c p => c.bridge node p.1 p.2) c = c' at hs hext hby
  refine ⟨⟨hs.grown, hs.mirrors⟩, ?_, fun n => ?_, fun p v q hsplit enter leave hpass => ?_⟩
  · simp [hext.flags, h.size_eq]
  · rw [List.mem_append, List.mem_singleton, ← h.flags]
    unfold isContracted
    rw [hext.flags, Array.getElem?_setIfInBounds]
    by_cases hn : node = n
    · subst hn
      simp [h.size_eq, hnode]
    · simp [hn, Ne.symm hn]
  · -- Edges at a contracted node were there before.
    have hold : ∀ f, Open c'.edges f → (f.base ∈ pre ++ [node] ∨ f.adj ∈ pre ++ [node]) →
        Open c.edges f := fun f hf hor => by
      obtain hf | ⟨hbase, hadj⟩ := hext.fresh f hf
      · exact hf
      · exact absurd hor (not_or.2 ⟨hbase, hadj⟩)
    have hv : v ∈ pre ++ [node] := by simp [hsplit]
    have hpass' : Passage c.edges (· ∈ p ++ [v]) v enter leave := by
      obtain ⟨⟨f, hf, hfv, hfeq⟩, ⟨g, hg, hgv, hgeq⟩, hef, hlf⟩ := hpass
      exact ⟨⟨f, hold f hf (.inr (hfv ▸ hv)), hfv, hfeq⟩,
        ⟨g, hold g hg (.inl (hgv ▸ hv)), hgv, hgeq⟩, hef, hlf⟩
    -- The passage leads through the node just contracted, or through one before it.
    obtain ⟨hp, hq⟩ | ⟨q', hpre', hq'⟩ :
        (p = pre ∧ v :: q = [node]) ∨ ∃ q', pre = p ++ v :: q' ∧ q = q' ++ [node] := by
      rcases List.eq_nil_or_concat q with rfl | ⟨q', b, rfl⟩
      · left
        have := List.append_inj' hsplit rfl
        exact ⟨this.1.symm, this.2.symm⟩
      · right
        have hsplit' : pre ++ [node] = (p ++ v :: q') ++ [b] := by simpa using hsplit
        obtain ⟨h1, h2⟩ := List.append_inj' hsplit' rfl
        obtain rfl : node = b := by simpa using h2
        exact ⟨q', h1, by simp⟩
    · obtain ⟨rfl, rfl⟩ : v = node ∧ q = [] := by simpa using hq
      subst hp
      exact hby (enter, leave) ((hmem enter leave).2 hpass')
    · exact (h.bypassed p v q' hpre' enter leave hpass').mono hext.stays

/-- **Contracting all nodes of an order.** -/
theorem Contracting.contractAll {pre rest : List NodeId} (h : Contracting roads nodeCount pre c)
    (hr : RoadTable roads nodeCount) (hrest : ∀ n ∈ rest, n < nodeCount)
    (hnodup : (pre ++ rest).Nodup) :
    Contracting roads nodeCount (pre ++ rest) (rest.foldl Contraction.contractNode c) := by
  induction rest generalizing pre c with
  | nil => simpa using h
  | cons n rest ih =>
    have hn : n ∉ pre := fun hmem =>
      (List.nodup_append.1 hnodup).2.2 n hmem n (by simp) rfl
    have hstep := h.contractNode hr (hrest n (by simp)) hn
    have := ih hstep (fun m hm => hrest m (by simp [hm])) (by simpa using hnodup)
    simpa using this

end RoadSplice.Contraction

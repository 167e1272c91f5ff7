/-
  RoadSplice.Proofs.Hierarchy.Unpacked — what the edges of a hierarchy stand for.

  A shortcut names two edges by number, and which way round they are taken is read off the nodes
  where they meet.  Both are older than the shortcut, so unpacking ends; and a table grows by
  shortcuts over edges that are no loops, so the nodes leave no doubt about the direction.  What an
  edge unpacks to has its weight, its length and its time, however the weights are chosen.

  The induction is over the growth of the table: what is known of the edges that are there carries
  over to the shortcut that comes next.
-/
import RoadSplice.Proofs.Hierarchy.Ranks

namespace RoadSplice

open HierarchyEdge RoadGraph

/-! ## §1. Loops and shortcuts. -/

section

variable {roads es : Array (HierarchyEdge Exact)} {nodeCount : Nat} {e : HierarchyEdge Exact}

/-- **A loop is a road**: no shortcut comes back to where it began. -/
theorem HierarchyEdge.Grown.road_of_loop (hg : Grown roads es) (he : InTable es e)
    (hloop : e.base = e.adj) : InTable roads e := by
  induction hg with
  | start => exact he
  | @push es f₁ f₂ _ _ _ _ hne ih =>
    obtain he | rfl | he := inTable_push.1 he
    · exact ih he
    · exact absurd hloop hne
    · have hbase : e.adj = f₁.base := congrArg base he
      have hadj : e.base = f₂.adj := congrArg adj he
      exact absurd (hbase.symm.trans (hloop.symm.trans hadj)) hne

/-- **A shortcut is open** in the direction in which it is stored. -/
theorem HierarchyEdge.Grown.open_of_shortcut (hg : Grown roads es) (hr : RoadTable roads nodeCount)
    (he : e ∈ es) (hshortcut : e.isShortcut = true) : Open es e := by
  induction hg with
  | start =>
    rw [isShortcut, hr.skipped_eq e he] at hshortcut
    cases hshortcut
  | push _ h₁ h₂ _ hne ih =>
    rw [open_push_shortcut h₁ h₂ hne]
    exact (Array.mem_push.1 he).imp ih id

/-- **An open edge is an open road or a shortcut.** -/
theorem HierarchyEdge.Grown.open_road_or_shortcut (hg : Grown roads es) (he : Open es e) :
    Open roads e ∨ e ∈ es ∧ e.isShortcut = true := by
  induction hg with
  | start => exact .inl he
  | push _ h₁ h₂ _ hne ih =>
    obtain he | rfl := (open_push_shortcut h₁ h₂ hne).1 he
    · exact (ih he).imp_right fun h => ⟨Array.mem_push_of_mem _ h.1, h.2⟩
    · exact .inr ⟨Array.mem_push_self, rfl⟩

end

/-! ## §2. What an edge stands for. -/

variable {g : RoadGraph Exact} {w : Weighting Exact} {h : Hierarchy Exact}

/-- **An edge that unpacks**: with fuel as large as its number there is an answer, and it is roads of
the graph in a row, from where the edge begins to where it ends, that come to the same. -/
structure Hierarchy.UnpacksTo (g : RoadGraph Exact) (w : Weighting Exact) (h : Hierarchy Exact)
    (e p : HierarchyEdge Exact) (ps : List (HierarchyEdge Exact)) : Prop where
  unpack : ∀ fuel, e.edge ≤ fuel → h.routing.unpack fuel e = .ok (p :: ps)
  joined : Joined (·.base) (·.adj) e.base (p :: ps) e.adj
  roads : ∀ q ∈ p :: ps, InTable (roadTable g w) q
  sums : SumsTo p ps e

/-- **What a direction of finite weight stands for.**  A loop stands for itself. -/
theorem unpacksTo_of_contract (hg : g.WellFormed) (hcontract : contract g w = .ok h)
    {e : HierarchyEdge Exact} (he : InTable h.edges e) (hfinite : e.weightForward.IsReal) :
    ∃ p ps, h.UnpacksTo g w e p ps := by
  have hr := roadTable_spec hg w
  have hgrown := grown_of_contract hg hcontract
  by_cases hloop : e.base = e.adj
  · have hroad := hgrown.road_of_loop he hloop
    refine ⟨e, [], fun fuel _ => ?_, ⟨rfl, rfl⟩, by simpa using hroad, .single e⟩
    unfold RoutingHierarchy.unpack
    rw [hr.skipped_inTable hroad]
  · have hlookup : ∀ (i : Nat) k, h.edges[i]? = some k → h.routing.edge i none = .ok k :=
      fun i k hk => Hierarchy.edge_none.2 hk
    obtain ⟨p, ps, hunpack, hjoined, hopen, hsums⟩ := hgrown.unpack hr hlookup ⟨he, hloop, hfinite⟩
    exact ⟨p, ps, hunpack, hjoined, fun q hq => (hopen q hq).inTable, hsums⟩

/-- **Shortcuts unpack to what they stand for.**  Contraction always succeeds.  An edge of its
hierarchy has its place as its number; the levels are a permutation of the nodes; a shortcut passes
over a node below both its ends and is open forwards only; and an edge in a direction of finite
weight unpacks to roads in a row that come to the same. -/
theorem hierarchy_unpacks (hg : g.Built) (w : Weighting Exact) :
    ∃ h, contract g w = .ok h ∧
      (∀ (i : Nat) e, h.edges[i]? = some e → e.edge = i) ∧
      h.levels.toList.Perm (List.range g.nodeCount) ∧
      (∀ (i : Nat) e, h.edges[i]? = some e → e.isShortcut = true →
        e.weightForward.IsReal ∧ ∃ m, PassesOver h.edges i e m ∧
          h.level m < h.level e.base ∧ h.level m < h.level e.adj) ∧
      ∀ e, InTable h.edges e → e.weightForward.IsReal → ∃ p ps, h.UnpacksTo g w e p ps := by
  have hwf := hg.wellFormed
  have hcontract := contract_eq g w
  have hranked := ranked_of_contract hwf hcontract
  refine ⟨_, hcontract, hranked.edge_eq, hranked.levels, fun i e he hshortcut => ⟨?_, ?_⟩,
    fun e he hfinite => unpacksTo_of_contract hwf hcontract he hfinite⟩
  · exact ((grown_of_contract hwf hcontract).open_of_shortcut (roadTable_spec hwf w)
      (Array.mem_of_getElem? he) hshortcut).finite
  · exact hranked.passes i e he hshortcut

/-! ## §3. A ring of one-way roads. -/

/-- Three nodes without roads. -/
noncomputable def threeNodes : RoadGraph Exact :=
  after (setNode 2 (Point.flat 0 0)) (after (setNode 1 (Point.flat 0 0))
    (after (setNode 0 (Point.flat 0 0)) (empty false)))

/-- Three nodes, and from each a road of one metre to the next one. -/
noncomputable def oneWayRing : RoadGraph Exact :=
  after (addEdge 2 0 1) (after (addEdge 1 2 1) (after (addEdge 0 1 1) threeNodes))

/-- Roads that can be taken in their stored direction only and are all alike. -/
noncomputable def forwardOnly : Weighting Exact :=
  { edgeWeight := fun _ reverse => if reverse then Scalar.infinity else 1
    edgeMillis := fun _ reverse => if reverse then Millis.unusable else Millis.zero
    turnWeight := fun _ => 0
    turnMillis := fun _ => Millis.zero
    hasTurnCosts := false }

theorem built_oneWayRing : oneWayRing.Built :=
  .addEdge _ _ _ (.addEdge _ _ _ (.addEdge _ _ _
    (.setNode _ _ (.setNode _ _ (.setNode _ _ (.empty false))))))

theorem threeNodes_eq : threeNodes.nodeCount = 3 ∧ threeNodes.roads = #[] ∧
    threeNodes.words = #[] ∧ threeNodes.is3d = false := by
  refine ⟨?_, rfl, rfl, rfl⟩
  show ((((empty false).placeNode 0 (Point.flat (0 : Exact) 0)).placeNode 1
    (Point.flat 0 0)).placeNode 2 (Point.flat 0 0)).nodeCount = 3
  simp [placeNode, grow, empty, nodeCount]

theorem oneWayRing_eq : oneWayRing.nodeCount = 3 ∧
    oneWayRing.roads = #[⟨0, 1, 1, .empty false, ""⟩, ⟨1, 2, 1, .empty false, ""⟩,
      ⟨2, 0, 1, .empty false, ""⟩] ∧ oneWayRing.words = #[0#64, 0#64, 0#64] := by
  obtain ⟨hnodes, hroads, hwords, his3d⟩ := threeNodes_eq
  have hjoin : ∀ (g : RoadGraph Exact) a b, g.nodeCount = 3 → a < 3 → b < 3 →
      after (addEdge a b 1) g = g.joinNodes a b 1 ∧ (g.joinNodes a b 1).nodeCount = 3 :=
    fun g a b hg ha hb => ⟨after_addEdge_of_lt 1 (hg ▸ ha) (hg ▸ hb), hg⟩
  unfold oneWayRing
  obtain ⟨hfirst, hnodes⟩ := hjoin threeNodes 0 1 hnodes (by decide) (by decide)
  rw [hfirst]
  obtain ⟨hsecond, hnodes⟩ := hjoin _ 1 2 hnodes (by decide) (by decide)
  rw [hsecond]
  obtain ⟨hthird, hnodes⟩ := hjoin _ 2 0 hnodes (by decide) (by decide)
  rw [hthird]
  exact ⟨hnodes, by simp [joinNodes, hroads, his3d], by simp [joinNodes, hwords]⟩

/-- **Roads around a ring that are open forwards only**: from each of three nodes to the next one. -/
structure OneWayRound (g : RoadGraph Exact) (w : Weighting Exact) : Prop where
  nodeCount : g.nodeCount = 3
  roads : g.roads = #[⟨0, 1, 1, .empty false, ""⟩, ⟨1, 2, 1, .empty false, ""⟩,
    ⟨2, 0, 1, .empty false, ""⟩]
  opened : ∀ (i : Nat) r reverse, g.roads[i]? = some r →
    ((w.edgeWeight (g.view ⟨i, r.a, r.b, false⟩) reverse).IsReal ↔ reverse = false)

theorem oneWayRound_oneWayRing : OneWayRound oneWayRing forwardOnly where
  nodeCount := oneWayRing_eq.1
  roads := oneWayRing_eq.2.1
  opened i r reverse _ := by
    cases reverse with
    | false => exact iff_of_true ⟨1, Exact.one_eq⟩ rfl
    | true => exact iff_of_false (by rintro ⟨x, ⟨⟩⟩) Bool.noConfusion

section

variable (hring : OneWayRound g w)
include hring

/-- The roads of the ring are open from each node to the next one and nowhere else. -/
theorem OneWayRound.next {f : HierarchyEdge Exact} (hf : Open (roadTable g w) f) :
    f.base < 3 ∧ f.adj = (f.base + 1) % 3 := by
  obtain ⟨htable, -, hfinite⟩ := hf
  obtain hf | hf := htable
  all_goals
    obtain ⟨i, hi⟩ := Array.mem_iff_getElem?.1 hf
    obtain ⟨r, hr, heq⟩ := roadTable_getElem?.1 hi
  · rw [heq]
    show r.a < 3 ∧ r.b = (r.a + 1) % 3
    rw [hring.roads] at hr
    have hmem := Array.mem_of_getElem? hr
    simp only [List.mem_toArray, List.mem_cons, List.not_mem_nil, or_false] at hmem
    obtain rfl | rfl | rfl := hmem <;> decide
  · have hback : f.weightForward = w.edgeWeight (g.view ⟨i, r.a, r.b, false⟩) true :=
      congrArg weightBackward heq
    rw [hback] at hfinite
    cases (hring.opened i r true hr).1 hfinite

theorem OneWayRound.exists_open {n : Nat} (hn : n < 3) :
    ∃ f, Open (roadTable g w) f ∧ f.base = n ∧ f.adj = (n + 1) % 3 := by
  have hroad : ∀ i r, g.roads[i]? = some r → r.a ≠ r.b →
      Open (roadTable g w) (roadEdge w (g.view ⟨i, r.a, r.b, false⟩)) := fun i r hr hne =>
    ⟨.inl (Array.mem_of_getElem? (roadTable_getElem?.2 ⟨r, hr, rfl⟩)), hne,
      (hring.opened i r false hr).2 rfl⟩
  have hroads := hring.roads
  match n, hn with
  | 0, _ => exact ⟨_, hroad 0 ⟨0, 1, 1, .empty false, ""⟩ (hroads ▸ rfl) (by decide), rfl, rfl⟩
  | 1, _ => exact ⟨_, hroad 1 ⟨1, 2, 1, .empty false, ""⟩ (hroads ▸ rfl) (by decide), rfl, rfl⟩
  | 2, _ => exact ⟨_, hroad 2 ⟨2, 0, 1, .empty false, ""⟩ (hroads ▸ rfl) (by decide), rfl, rfl⟩

/-- **The ring needs a shortcut** past the node that is contracted first: there is no other way. -/
theorem OneWayRound.exists_shortcut (hg : g.Built) (hcontract : contract g w = .ok h) :
    ∃ e ∈ h.edges, e.isShortcut = true ∧ Open h.edges e ∧ e.base < 3 ∧
      e.adj = (e.base + 2) % 3 := by
  obtain ⟨order, c, hperm, hdone, rfl⟩ := contracting_of_contract hg.wellFormed hcontract
  rw [(Hierarchy.ofEdges_fields _ _ _).1]
  rw [hring.nodeCount] at hperm
  obtain ⟨v, q, rfl⟩ : ∃ v q, order = v :: q :=
    List.exists_cons_of_length_pos (hperm.length_eq ▸ by decide)
  have hv : v < 3 := List.mem_range.1 (hperm.mem_iff.1 List.mem_cons_self)
  have haround : ∀ n : Nat, n < 3 → (n + 2) % 3 < 3 ∧ ((n + 2) % 3 + 1) % 3 = n ∧
      (n + 2) % 3 ≠ (n + 1) % 3 := by
    intro n hn
    omega
  obtain ⟨hbefore, hback, hapart⟩ := haround v hv
  obtain ⟨f, hf, hfbase, hfadj⟩ := hring.exists_open hbefore
  obtain ⟨k, hk, hkbase, hkadj⟩ := hring.exists_open hv
  have hthrough : f.adj = v := hfadj.trans hback
  have hends : f.base ≠ k.adj := fun heq => hapart (hfbase.symm.trans (heq.trans hkadj))
  have hfree : ∀ n : NodeId, n ≠ v → n ∉ ([] ++ [v] : List NodeId) := by simp
  have hbypassed := hdone.bypassed [] v q rfl (Arcs.arcFrom f) (Arcs.arcTo k)
    ⟨⟨f, hdone.grown.open_of_road hf, hthrough, rfl⟩, ⟨k, hdone.grown.open_of_road hk, hkbase, rfl⟩,
      hfree _ (hthrough ▸ hf.no_loop), hfree _ (hkbase ▸ hk.no_loop.symm)⟩
  obtain ⟨a, ha⟩ := hf.finite
  obtain ⟨b, hb⟩ := hk.finite
  obtain ⟨x, hwalk, -⟩ := hbypassed.resolve_left hends a b ha hb
  -- The way around begins with an edge past the node, which is none of the roads.
  obtain ⟨e, he, hbase, hadj⟩ : ∃ e, Open c.edges e ∧ e.base = f.base ∧ e.adj ≠ v := by
    have hfirst : ∀ {s t : NodeId} {x : ℝ}, Walk (HopStep c.edges (· ∈ [] ++ [v])) s t x → s ≠ t →
        ∃ e, Open c.edges e ∧ e.base = s ∧ e.adj ≠ v := by
      rintro s t x (_ | ⟨⟨l, hl, hbase, hadj, -, hopen⟩, _⟩) hne
      · exact absurd rfl hne
      · exact ⟨l, hl, hbase, fun heq => hopen (by simp [← hadj, heq])⟩
    exact hfirst hwalk hends
  have hlt := (hdone.grown.ends_lt (roadTable_spec hg.wellFormed w) he.inTable).2
  rw [hring.nodeCount] at hlt
  have hbase : e.base = (v + 2) % 3 := hbase.trans hfbase
  obtain hroad | ⟨hmem, hshortcut⟩ := hdone.grown.open_road_or_shortcut he
  · exact absurd ((hring.next hroad).2.trans (hbase ▸ hback)) hadj
  · -- It leads neither to the node nor back, so it leads to the third one.
    have hthird : ∀ a b : Nat, b < 3 → b ≠ v → a = (v + 2) % 3 → a ≠ b →
        a < 3 ∧ b = (a + 2) % 3 := by
      intro a b
      omega
    obtain ⟨hbase, hadj⟩ := hthird e.base e.adj hlt hadj hbase he.no_loop
    exact ⟨e, hmem, hshortcut, he, hbase, hadj⟩

end

/-- Each edge of the ring's hierarchy unpacks, a shortcut among them. -/
theorem hierarchy_unpacks_oneWayRing :
    ∃ h e m p ps, oneWayRing.Built ∧ contract oneWayRing forwardOnly = .ok h ∧
      e ∈ h.edges ∧ e.isShortcut = true ∧ PassesOver h.edges e.edge e m ∧
      h.level m < h.level e.base ∧ h.level m < h.level e.adj ∧
      h.UnpacksTo oneWayRing forwardOnly e p ps := by
  obtain ⟨h, hcontract, hids, -, hpasses, hunpacks⟩ :=
    hierarchy_unpacks built_oneWayRing forwardOnly
  obtain ⟨e, he, hshortcut, -⟩ := oneWayRound_oneWayRing.exists_shortcut built_oneWayRing hcontract
  obtain ⟨i, hi⟩ := Array.mem_iff_getElem?.1 he
  obtain ⟨hfinite, m, hover, hbase, hadj⟩ := hpasses i e hi hshortcut
  obtain ⟨p, ps, hunpack⟩ := hunpacks e (.inl he) hfinite
  rw [← hids i e hi] at hover
  exact ⟨h, e, m, p, ps, built_oneWayRing, hcontract, he, hshortcut, hover, hbase, hadj, hunpack⟩

end RoadSplice

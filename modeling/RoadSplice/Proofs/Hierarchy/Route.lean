/-
  RoadSplice.Proofs.Hierarchy.Route — what the search on a hierarchy answers.

  The search ends within its limit.  It answers that there is no way exactly when no two climbs
  meet; otherwise the edges by which both sides were reached form one chain, which weighs as
  little as any meeting, and the path is what these edges stand for.
-/
import RoadSplice.Proofs.Hierarchy.Meeting

namespace RoadSplice.RoutingHierarchy

open Wave

variable {h : RoutingHierarchy Exact}

/-! ## §1. The edges of a way. -/

/-- An edge in the direction in which one side or the other has taken it. -/
def Travels (h : RoutingHierarchy Exact) (e : HierarchyEdge Exact) : Prop :=
  e ∈ h.outEdges e.base ∨ e.reversed ∈ h.inEdges e.adj

/-- A link of a side is one of its edges. -/
theorem Routable.link_eq (hr : h.Routable) {f : Bool} {p : NodeId}
    {l : Link (HierarchyEdge Exact)} (hl : l ∈ h.climbLinks f p) :
    l.tag ∈ h.sideEdges f p ∧ l.tag.base = p ∧ l.node = l.tag.adj ∧ l.cost = l.tag.cost f := by
  obtain ⟨e, he, rfl⟩ := List.mem_map.1 hl
  have hmem := (List.mem_filter.1 he).1
  exact ⟨hmem, hr.base_eq f p e hmem, rfl, rfl⟩

theorem climbed_of_trail (hr : h.Routable) {f : Bool} {labels : Std.TreeMap NodeId (Climb Exact)}
    {frontier : Frontier Exact} {source n : NodeId} {steps : List (Link (HierarchyEdge Exact))}
    (hroot : labelled ClimbSearch.readClimb labels source = some (.real 0, none))
    (htrail : Trail (h.climbLinks f) ⟨labelled ClimbSearch.readClimb labels, frontier⟩ source n
      steps) {fuel : Nat} (hfuel : steps.length < fuel) :
    climbed labels fuel n = some (steps.map (·.tag)) := by
  induction htrail generalizing fuel with
  | root =>
    obtain ⟨fuel, rfl⟩ := Nat.exists_eq_add_one.2 hfuel
    obtain ⟨c, hc, hread⟩ := Option.map_eq_some_iff.1 hroot
    have hedge : c.edge = none := congrArg Prod.snd hread
    simp [climbed, hc, hedge]
  | @step p steps l b t _ hmem _ hlabel ih =>
    obtain ⟨fuel, rfl⟩ := Nat.exists_eq_add_one.2 (Nat.zero_lt_of_lt hfuel)
    obtain ⟨c, hc, hread⟩ := Option.map_eq_some_iff.1 hlabel
    have hedge : c.edge = some l.tag := congrArg Prod.snd hread
    have hlen : steps.length < fuel := by simpa using hfuel
    have hbase := (hr.link_eq hmem).2.1
    simp [climbed, hc, hedge, hbase, ih hlen]

/-- **The climb from the source**, read from its beginning. -/
theorem joined_up (hr : h.Routable) {w : Wave (HierarchyEdge Exact)} {source n : NodeId}
    {steps : List (Link (HierarchyEdge Exact))}
    (htrail : Trail (h.climbLinks true) w source n steps) :
    Joined (·.base) (·.adj) source (steps.map (·.tag)).reverse n ∧
      (∀ e ∈ (steps.map (·.tag)).reverse, h.Travels e) ∧
      total ((steps.map (·.tag)).reverse.map (·.weightForward)) = total (steps.map (·.cost)) := by
  -- Induction along the trail, whose last step comes first.
  induction htrail with
  | root => exact ⟨rfl, by simp, rfl⟩
  | @step p steps l b t _ hmem _ _ ih =>
    obtain ⟨hedge, hbase, hnode, hcost⟩ := hr.link_eq hmem
    obtain ⟨hjoined, htravels, hsum⟩ := ih
    have hl : h.Travels l.tag := .inl (hbase.symm ▸ hedge)
    refine ⟨?_, ?_, ?_⟩
    · rw [List.map_cons, List.reverse_cons]
      exact hjoined.append ⟨hbase, hnode.symm⟩
    · intro e he
      rw [List.map_cons, List.reverse_cons, List.mem_append, List.mem_singleton] at he
      obtain he | rfl := he
      · exact htravels e he
      · exact hl
    · have hlast : total ([l.tag].map (·.weightForward)) = l.cost := by
        simp [hcost, HierarchyEdge.cost]
      rw [List.map_cons, List.reverse_cons, List.map_append, Exact.total_append, hsum, hlast,
        Exact.add_comm, List.map_cons, Exact.total_cons]

/-- **The climb from the target**, turned round. -/
theorem joined_down (hr : h.Routable) {w : Wave (HierarchyEdge Exact)} {target n : NodeId}
    {steps : List (Link (HierarchyEdge Exact))}
    (htrail : Trail (h.climbLinks false) w target n steps) :
    Joined (·.base) (·.adj) n ((steps.map (·.tag)).map (·.reversed)) target ∧
      (∀ e ∈ (steps.map (·.tag)).map (·.reversed), h.Travels e) ∧
      total (((steps.map (·.tag)).map (·.reversed)).map (·.weightForward)) =
        total (steps.map (·.cost)) := by
  -- Induction along the trail: turned round, its last step is the first one down.
  induction htrail with
  | root => exact ⟨rfl, by simp, rfl⟩
  | @step p steps l b t _ hmem _ _ ih =>
    obtain ⟨hedge, hbase, hnode, hcost⟩ := hr.link_eq hmem
    obtain ⟨hjoined, htravels, hsum⟩ := ih
    have hl : h.Travels l.tag.reversed := by
      right
      rw [HierarchyEdge.reversed_reversed, show l.tag.reversed.adj = p from hbase]
      exact hedge
    refine ⟨⟨hnode.symm, ?_⟩, ?_, ?_⟩
    · show Joined _ _ l.tag.base _ _
      rw [hbase]
      exact hjoined
    · intro e he
      obtain rfl | he := List.mem_cons.1 he
      · exact hl
      · exact htravels e he
    · simp only [List.map_cons, Exact.total_cons]
      rw [hsum, hcost]
      rfl

/-- **A side that has labelled a node** has climbed to it, and the edges that it names on the way
back cost what the label says. -/
theorem exists_climb (hr : h.Routable) {f : Bool} {side : ClimbSearch Exact} {source n : NodeId}
    {done : List NodeId} {floor : ℝ}
    (hp : Progress (h.climbLinks f) source side.toWave done floor) {x : ℝ}
    {t : Option (HierarchyEdge Exact)} (hlabel : side.toWave.label n = some (.real x, t)) :
    Walk (h.ClimbStep f) source n x ∧
      ∃ steps, Trail (h.climbLinks f) side.toWave source n steps ∧
        climbed side.labels side.labels.size n = some (steps.map (·.tag)) ∧
        total (steps.map (·.cost)) = .real x := by
  obtain ⟨x', hx', hwalk⟩ := hp.walk hlabel
  obtain rfl : x = x' := by simpa using hx'
  obtain ⟨steps, htrail, known, hnodup, hknown, hlen⟩ := hp.exists_trail hlabel
  obtain ⟨t', hlabel'⟩ := htrail.label_eq hp.toSettled
  refine ⟨hwalk.mono fun hstep => follows_climbLinks.1 hstep, steps, htrail, ?_, ?_⟩
  · exact climbed_of_trail hr hp.root htrail (hlen.trans_le (length_le_size hnodup hknown))
  · have hsame := hlabel.symm.trans hlabel'
    simp only [Option.some.injEq, Prod.mk.injEq] at hsame
    exact hsame.1.symm

/-! ## §2. The answer. -/

/-- The limit leaves room for every edge that climbs, once. -/
theorem relaxed_lt_limit (h : RoutingHierarchy Exact) :
    Bidirectional.relaxed h (fun _ => List.range h.nodeCount) + 2 ≤ h.limit := by
  have hle : ∀ f n, (h.climbLinks f n).length ≤ (h.sideEdges f n).length := fun f n => by
    rw [climbLinks, List.length_map]
    exact List.length_filter_le _ _
  -- The limit counts the edges of both sides in one pass over the nodes.
  have hsum : ∀ (ns : List NodeId) (k : Nat),
      ns.foldl (fun n v => n + (h.outEdges v).length + (h.inEdges v).length) k =
        k + (ns.map fun v => (h.sideEdges true v).length).sum +
          (ns.map fun v => (h.sideEdges false v).length).sum := by
    intro ns
    induction ns with
    | nil => simp
    | cons n ns ih =>
      intro k
      rw [List.foldl_cons, ih]
      simp only [List.map_cons, List.sum_cons, sideEdges]
      simp only [↓reduceIte, Bool.false_eq_true]
      omega
  have hdegrees : ∀ f, degrees (h.climbLinks f) (List.range h.nodeCount) ≤
      ((List.range h.nodeCount).map fun v => (h.sideEdges f v).length).sum := fun f =>
    List.sum_le_sum fun n _ => hle f n
  have htrue := hdegrees true
  have hfalse := hdegrees false
  have hpow : 1 ≤ 2 ^ h.nodeCount := Nat.one_le_two_pow
  unfold limit Bidirectional.relaxed
  rw [Nat.pow_eq, hsum, Nat.zero_add]
  nlinarith

/-- **The search on a hierarchy** finds no way when no climbs meet, and otherwise a chain of
edges that weighs as little as any meeting. -/
theorem route_eq (hr : h.Routable) {s t : NodeId} (hs : s < h.nodeCount) (ht : t < h.nodeCount)
    (hst : s ≠ t) :
    (h.route s t = .ok none ∧ ∀ c, ¬ Meets h s t c) ∨
    ∃ es z, Joined (·.base) (·.adj) s es t ∧ (∀ e ∈ es, h.Travels e) ∧
      total (es.map (·.weightForward)) = .real z ∧ Meets h s t z ∧
      (∀ c, Meets h s t c → z ≤ c) ∧
      h.route s t = (es.mapM fun e => h.unpack (e.edge + h.edgeCount + 1) e).map
        fun parts => some (pathAlong s (.real z) parts.flatten) := by
  obtain ⟨done, hb, hover⟩ := Bidirectional.run_over hr hs ht h.limit
    (Bidirectional.balanced_start h s t)
    (by
      have := relaxed_lt_limit h
      simpa [Bidirectional.relaxed, degrees, Bidirectional.waiting, Bidirectional.start,
        ClimbSearch.start, Frontier.start] using this)
  generalize hrun : (Bidirectional.start s t).run h h.limit = b at hb hover
  cases hnode : b.best.node with
  | none =>
    left
    refine ⟨?_, fun c hc => ?_⟩
    · simp only [route, hr.node_based, hst, hrun, hnode]
      rfl
    · obtain ⟨z, hz, -⟩ := hb.best_le hr hover hc
      rw [hb.unmet hnode] at hz
      simp at hz
  | some m =>
    right
    obtain ⟨x, z, hx, hz, hle⟩ := hb.best m hnode
    obtain ⟨_, hpf⟩ := hb.side true
    obtain ⟨_, hpb⟩ := hb.side false
    obtain ⟨_, hlf⟩ := hx true
    obtain ⟨_, hlb⟩ := hx false
    obtain ⟨hwalkf, up, htrailf, hup, hxf⟩ := exists_climb hr hpf hlf
    obtain ⟨hwalkb, down, htrailb, hdown, hxb⟩ := exists_climb hr hpb hlb
    obtain ⟨hjf, htf, hsf⟩ := joined_up hr htrailf
    obtain ⟨hjb, htb, hsb⟩ := joined_down hr htrailb
    -- Both climbs end at the best meeting, and it weighs what they cost together.
    have hmeets : Meets h s t (x true + x false) := ⟨m, _, _, hwalkf, hwalkb, rfl⟩
    have hleast : ∀ c, Meets h s t c → z ≤ c := fun c hc => by
      obtain ⟨z', hz', hle'⟩ := hb.best_le hr hover hc
      obtain rfl : z = z' := by simpa [hz] using hz'
      exact hle'
    have hbest : z = x true + x false := le_antisymm (hleast _ hmeets) hle
    refine ⟨(up.map (·.tag)).reverse ++ (down.map (·.tag)).map (·.reversed), z, hjf.append hjb,
      ?_, ?_, hbest ▸ hmeets, hleast, ?_⟩
    · intro e he
      obtain he | he := List.mem_append.1 he
      · exact htf e he
      · exact htb e he
    · rw [List.map_append, Exact.total_append, hsf, hsb, hxf, hxb, hbest, Exact.real_add]
    · have hchain : chain b m =
          some ((up.map (·.tag)).reverse ++ (down.map (·.tag)).map (·.reversed)) := by
        unfold chain
        rw [show climbed b.forward.labels b.forward.labels.size m = some (up.map (·.tag)) from hup,
          show climbed b.backward.labels b.backward.labels.size m = some (down.map (·.tag)) from
            hdown]
        rfl
      simp only [route, hr.node_based, hst, hrun, hnode, hchain, hz]
      rfl

end RoadSplice.RoutingHierarchy

/-
  RoadSplice.Proofs.Search.Turns — the search from node to node where turns are charged.

  What it costs to leave a node depends on the edge by which the node was reached, so the search
  is a wave whose links depend on its own labels.  Labels of settled nodes never change, so the
  links of a settled node are known once and for all, and the invariant of waves carries over.
  Every label is then paid for by a walk over settled nodes, edge by edge and turn by turn, and
  the parents lead back along that walk.
-/
import RoadSplice.Proofs.Results
import RoadSplice.Proofs.Search.Dijkstra
import RoadSplice.Proofs.Search.Followed

namespace RoadSplice

/-! ## §1. Waves whose links depend on their labels. -/

namespace Wave

variable {β : Type}

/-- The links by which the settled nodes were left, each in view of how it had been reached. -/
def taken (leave : NodeId → Option β → List (Link β)) (w : Wave β) (done : List NodeId)
    (n : NodeId) : List (Link β) :=
  if n ∈ done then ((w.label n).map fun l => leave n l.2).getD [] else []

variable {leave : NodeId → Option β → List (Link β)} {source : NodeId} {w w' : Wave β}
  {done : List NodeId} {floor : ℝ}

theorem taken_congr (h : ∀ n ∈ done, w'.label n = w.label n) :
    taken leave w' done = taken leave w done := by
  funext n
  unfold taken
  split
  · rename_i hn
    rw [h n hn]
  · rfl

theorem mem_taken {n : NodeId} {k : Link β} (h : k ∈ taken leave w done n) :
    n ∈ done ∧ ∃ a t, w.label n = some (a, t) ∧ k ∈ leave n t := by
  unfold taken at h
  split at h
  · rename_i hn
    cases hl : w.label n with
    | none => simp [hl] at h
    | some l => exact ⟨hn, l.1, l.2, rfl, by simpa [hl] using h⟩
  · simp at h

theorem taken_of_label {n : NodeId} {a : Exact} {t : Option β} (hn : n ∈ done)
    (hl : w.label n = some (a, t)) : taken leave w done n = leave n t := by
  simp [taken, hn, hl]

/-- The links of settled nodes are kept when another node is settled. -/
theorem taken_subset (leave : NodeId → Option β → List (Link β)) (w : Wave β)
    (done : List NodeId) (u n : NodeId) : taken leave w done n ⊆ taken leave w (done ++ [u]) n := by
  intro k hk
  obtain ⟨hn, a, t, hl, hk⟩ := mem_taken hk
  rwa [taken_of_label (List.mem_append_left _ hn) hl]

/-- The invariant holds over more links as well. -/
theorem Settled.mono {links links' : NodeId → List (Link β)}
    (h : Settled links source w done floor) (hsub : ∀ n, links n ⊆ links' n) :
    Settled links' source w done floor :=
  { h with
    walk := fun hl => by
      obtain ⟨x, hx, hwalk⟩ := h.walk hl
      exact ⟨x, hx, hwalk.mono fun ⟨l, hmem, hrest⟩ => ⟨l, hsub _ hmem, hrest⟩⟩
    parent := fun hl => by
      obtain ⟨p, hp, hbefore, l, hmem, hrest⟩ := h.parent hl
      exact ⟨p, hp, hbefore, l, hsub _ hmem, hrest⟩ }

/-- No way on costs less than nothing, however its node was reached. -/
def NonnegLeave (leave : NodeId → Option β → List (Link β)) : Prop :=
  ∀ n t, ∀ l ∈ leave n t, ∀ c, l.cost = .real c → 0 ≤ c

theorem nonneg_taken (h : NonnegLeave leave) (w : Wave β) (done : List NodeId) :
    Nonneg (taken leave w done) := fun n l hl => by
  obtain ⟨-, a, t, -, hl⟩ := mem_taken hl
  exact h n t l hl

/-- **Leaving a node** by the links that its own label gives keeps the invariant. -/
theorem Settled.leaveNode (h : Settled (taken leave w done) source w done floor)
    (hleave : NonnegLeave leave) {e : FrontierEntry Exact} {rest : Frontier Exact}
    (hf : w.frontier = e :: rest) {y : ℝ} {t : Option β} (he : e.weight = .real y)
    (hx : w.label e.node = some (.real y, t))
    (hw' : w' = (leave e.node t).foldl (Wave.relax (.real y)) { w with frontier := rest }) :
    Settled (taken leave w' (done ++ [e.node])) source w' (done ++ [e.node]) y := by
  obtain ⟨hsettled, hfloor⟩ := h.settle hf he hx
  have hnow : Settled (taken leave w (done ++ [e.node])) source { w with frontier := rest }
      (done ++ [e.node]) y := hsettled.mono (taken_subset leave w done e.node)
  have hlinks : leave e.node t ⊆ taken leave w (done ++ [e.node]) e.node := by
    rw [taken_of_label (by simp) hx]
    exact List.Subset.refl _
  obtain ⟨hafter, himp, -, -⟩ := hnow.relaxAll (nonneg_taken hleave _ _) hfloor hlinks
  -- The labels of settled nodes are as they were, and with them their links.
  have hsame : taken leave w' (done ++ [e.node]) = taken leave w (done ++ [e.node]) :=
    taken_congr fun n hn => by
      rw [hw']
      exact himp.frozen n hn
  rw [hsame, hw']
  exact hafter

end Wave

open Wave

/-! ## §2. What a walk with turns costs. -/

section Turns

variable {K : Type}

/-- **The turns of a walk**, each from an edge into the next one. -/
def turnsAlong : List (EdgeView K) → List Turn
  | [] => []
  | [_] => []
  | u :: v :: vs => ⟨u.edge, u.adj, v.edge⟩ :: turnsAlong (v :: vs)

theorem turnsAlong_snoc (vs : List (EdgeView K)) (u v : EdgeView K) :
    turnsAlong (vs ++ [u, v]) = turnsAlong (vs ++ [u]) ++ [⟨u.edge, u.adj, v.edge⟩] := by
  induction vs with
  | nil => rfl
  | cons x vs ih =>
    cases vs with
    | nil => rfl
    | cons y ys => exact congrArg (_ :: ·) ih

end Turns

/-- **The saturating sum** of several times: a sum past the greatest count stays there. -/
def Millis.sum (times : List Millis) : Millis :=
  ⟨min (times.map (·.count)).sum unusable.count⟩

theorem Millis.sum_plus (times : List Millis) (m : Millis) :
    (Millis.sum times).plus m = Millis.sum (times ++ [m]) := by
  simp only [Millis.sum, Millis.plus, Millis.mk.injEq, List.map_append, List.sum_append,
    List.map_cons, List.map_nil, List.sum_singleton]
  omega

theorem Millis.sum_perm {times times' : List Millis} (h : times.Perm times') :
    Millis.sum times = Millis.sum times' := by
  simp only [Millis.sum, (h.map _).sum_eq]

/-- No turn has a negative weight. -/
def NonnegTurns (w : Weighting Exact) : Prop := ∀ turn c, w.turnWeight turn = .real c → 0 ≤ c

section Charged

variable {G : Type} [Network G Exact]

/-- **A walk that pays for a label**: over edges and turns of finite weight, at the weight and the
time of the label, ending with the edge that the label names. -/
structure Charged (g : G) (w : Weighting Exact) (source : NodeId) (vs : List (EdgeView Exact))
    (n : NodeId) (l : Label Exact) : Prop where
  walk : IsWalk g source vs n
  last : l.parent.map (·.2) = vs.getLast?.map (·.edge)
  edges_open : ∀ v ∈ vs, (w.edgeWeight v false).IsReal
  turns_open : ∀ turn ∈ turnsAlong vs, (w.turnWeight turn).IsReal
  weight : l.weight = walkWeight w vs + total ((turnsAlong vs).map w.turnWeight)
  millis : l.millis =
    Millis.sum (vs.map (w.edgeMillis · false) ++ (turnsAlong vs).map w.turnMillis)

variable {g : G} {w : Weighting Exact} {source : NodeId}

/-- The first edge of a walk is charged by itself, any other one with the turn into it. -/
theorem edgeCost_cases (hcosts : w.hasTurnCosts = true) {n : NodeId} {i : Option EdgeId}
    {v : EdgeView Exact} {c : Exact} {m : Millis}
    (h : Search.edgeCost w n i v = some (c, m)) :
    (w.edgeWeight v false).IsReal ∧
      ((i = none ∧ c = w.edgeWeight v false ∧ m = w.edgeMillis v false) ∨
        ∃ u, i = some u ∧ (w.turnWeight ⟨u, n, v.edge⟩).IsReal ∧
          c = w.edgeWeight v false + w.turnWeight ⟨u, n, v.edge⟩ ∧
          m = (w.edgeMillis v false).plus (w.turnMillis ⟨u, n, v.edge⟩)) := by
  unfold Search.edgeCost at h
  by_cases hfin : Scalar.isFinite (w.edgeWeight v false) = true
  · refine ⟨(Exact.isFinite_iff _).1 hfin, ?_⟩
    cases i with
    | none =>
      left
      simpa [hfin, eq_comm] using h
    | some u =>
      right
      simp only [hfin, hcosts, Bool.not_true, Bool.false_eq_true, if_false] at h
      by_cases hturn : Scalar.isFinite (w.turnWeight ⟨u, n, v.edge⟩) = true
      · simp only [hturn, Bool.not_true, Bool.false_eq_true, if_false, Option.some.injEq,
          Prod.mk.injEq] at h
        exact ⟨u, rfl, (Exact.isFinite_iff _).1 hturn, h.1.symm, h.2.symm⟩
      · simp [hturn] at h
  · simp [hfin] at h

/-- **One more edge**, and the turn into it. -/
theorem Charged.snoc (hcosts : w.hasTurnCosts = true) {vs : List (EdgeView Exact)} {p : NodeId}
    {l : Label Exact} (h : Charged g w source vs p l) {v : EdgeView Exact}
    (hv : v ∈ Network.edges g p) (hbase : v.base = p) {c : Exact} {m : Millis}
    (hcost : Search.edgeCost w p (l.parent.map (·.2)) v = some (c, m)) :
    Charged g w source (vs ++ [v]) v.adj ⟨l.weight + c, l.millis.plus m, some (p, v.edge)⟩ := by
  obtain ⟨hopen, hturn⟩ := edgeCost_cases hcosts hcost
  have hwalk : IsWalk g source (vs ++ [v]) v.adj := by
    refine ⟨h.walk.1.append ⟨hbase, rfl⟩, List.forall_mem_append.2 ⟨h.walk.2, ?_⟩⟩
    rw [List.forall_mem_singleton, hbase]
    exact hv
  have hlast : (some (p, v.edge)).map (·.2) = (vs ++ [v]).getLast?.map (·.edge) := by simp
  have hedges : ∀ u ∈ vs ++ [v], (w.edgeWeight u false).IsReal :=
    List.forall_mem_append.2 ⟨h.edges_open, List.forall_mem_singleton.2 hopen⟩
  have hweight : walkWeight w (vs ++ [v]) = walkWeight w vs + w.edgeWeight v false := by
    simp [walkWeight, Exact.total_append, Exact.add_zero]
  rw [h.last] at hturn
  rcases List.eq_nil_or_concat vs with rfl | ⟨us, u, rfl⟩
  · -- The first edge.
    obtain ⟨-, rfl, rfl⟩ | ⟨_, hsome, -⟩ := hturn
    · refine ⟨hwalk, hlast, hedges, by simp [turnsAlong], ?_, ?_⟩
      · rw [hweight, h.weight]
        simp [turnsAlong, Exact.add_zero]
      · rw [h.millis]
        exact Millis.sum_plus _ _
    · simp at hsome
  · rw [List.concat_eq_append] at *
    obtain ⟨hnone, -⟩ | ⟨i, hsome, hreal, rfl, rfl⟩ := hturn
    · simp at hnone
    obtain rfl : u.edge = i := by simpa using hsome
    -- The walk so far ends where its last edge does, which is where the turn is made.
    have hend : u.adj = p := by
      obtain ⟨_, -, hlast'⟩ := h.walk.1.exists_of_append
      exact hlast'.2
    have hturns : turnsAlong (us ++ [u] ++ [v]) =
        turnsAlong (us ++ [u]) ++ [⟨u.edge, p, v.edge⟩] := by
      rw [List.append_assoc, ← hend]
      exact turnsAlong_snoc us u v
    refine ⟨hwalk, hlast, hedges, ?_, ?_, ?_⟩
    · rw [hturns]
      exact List.forall_mem_append.2 ⟨h.turns_open, List.forall_mem_singleton.2 hreal⟩
    · show l.weight + _ = _
      rw [hweight, hturns, List.map_append, Exact.total_append, h.weight, List.map_singleton,
        Exact.total_cons, Exact.total_nil, Exact.add_zero, Exact.add_add_add_comm]
    · show l.millis.plus _ = _
      rw [h.millis, ← Millis.plus_assoc, Millis.sum_plus, Millis.sum_plus, hturns]
      refine Millis.sum_perm ?_
      simp only [List.map_append, List.map_singleton, List.append_assoc]
      exact (List.perm_middle.append_left _).append_left _

end Charged

/-! ## §3. The search as a wave. -/

namespace Search

variable {G : Type} [Network G Exact] {g : G} {w : Weighting Exact} {source target : NodeId}

/-- What a label tells of how its node was reached: the node before, the edge from there and the
time in all. -/
abbrev Arrival := NodeId × EdgeId × Millis

/-- What the wave keeps of a label. -/
def readArrival (l : Label Exact) : Exact × Option Arrival :=
  (l.weight, l.parent.map fun p => (p.1, p.2, l.millis))

/-- The wave of a search that charges turns. -/
def toTurnWave (s : Search Exact) : Wave Arrival := ⟨labelled readArrival s.labels, s.frontier⟩

/-- The first node is reached without taking any time. -/
def RootAtZero (labels : Labels Exact) : Prop :=
  ∀ (n : NodeId) (l : Label Exact), labels[n]? = some l → l.parent = none →
    l.millis = Millis.zero

theorem readArrival_edge (l : Label Exact) :
    (readArrival l).2.map (·.2.1) = l.parent.map (·.2) := by
  simp [readArrival, Function.comp_def]

theorem readArrival_millis {l : Label Exact} (h : l.parent = none → l.millis = Millis.zero) :
    (readArrival l).2.elim Millis.zero (·.2.2) = l.millis := by
  cases hp : l.parent with
  | none => simp [readArrival, hp, h hp]
  | some p => simp [readArrival, hp]

/-- An edge as a link from a node that was reached in some way. -/
noncomputable def turnLink (w : Weighting Exact) (node : NodeId) (t : Option Arrival) (v : EdgeView Exact) :
    Option (Link Arrival) :=
  (edgeCost w node (t.map (·.2.1)) v).map fun c =>
    ⟨v.adj, c.1, (node, v.edge, (t.elim Millis.zero (·.2.2)).plus c.2)⟩

/-- The edges of a node as links. -/
noncomputable def turnLinks (g : G) (w : Weighting Exact) (node : NodeId) (t : Option Arrival) :
    List (Link Arrival) :=
  (Network.edges g node).filterMap (turnLink w node t)

theorem mem_turnLinks {n : NodeId} {t : Option Arrival} {k : Link Arrival} :
    k ∈ turnLinks g w n t ↔ ∃ v ∈ Network.edges g n, ∃ c m,
      edgeCost w n (t.map (·.2.1)) v = some (c, m) ∧
        k = ⟨v.adj, c, (n, v.edge, (t.elim Millis.zero (·.2.2)).plus m)⟩ := by
  simp only [turnLinks, turnLink, List.mem_filterMap, Option.map_eq_some_iff, Prod.exists]
  grind

theorem nonneg_turnLinks (hw : NonnegWeights g w) (hturns : NonnegTurns w)
    (hcosts : w.hasTurnCosts = true) : NonnegLeave (turnLinks g w) := by
  intro n t l hl c hc
  obtain ⟨v, hv, c', m, hcost, rfl⟩ := mem_turnLinks.1 hl
  obtain rfl : c' = .real c := hc
  obtain ⟨⟨a, ha⟩, ⟨-, hsum, -⟩ | ⟨u, -, ⟨b, hb⟩, hsum, -⟩⟩ := edgeCost_cases hcosts hcost
  · exact hw ⟨v, hv, rfl, hsum.symm⟩
  · have ha0 : 0 ≤ a := hw ⟨v, hv, rfl, ha⟩
    have hb0 : 0 ≤ b := hturns _ b hb
    rw [ha, hb, Exact.real_add, Exact.real.injEq] at hsum
    rw [hsum]
    exact add_nonneg ha0 hb0

/-- **Relaxing an edge** is relaxing its link, if there is one. -/
theorem toTurnWave_relax (hcosts : w.hasTurnCosts = true) (e : FrontierEntry Exact)
    {l : Label Exact} (hroot : l.parent = none → l.millis = Millis.zero) (s : Search Exact)
    (v : EdgeView Exact) :
    toTurnWave (relax w e l s v) =
      (turnLink w e.node (readArrival l).2 v).elim (toTurnWave s)
        (Wave.relax e.weight (toTurnWave s)) := by
  unfold relax turnLink
  rw [readArrival_edge, readArrival_millis hroot]
  cases hcost : edgeCost w e.node (l.parent.map (·.2)) v with
  | none => rfl
  | some cm =>
    obtain ⟨c, m⟩ := cm
    -- What an edge is charged is finite, so the wave does not refuse it.
    have hfin : c.IsReal := by
      obtain ⟨hedge, ⟨-, rfl, -⟩ | ⟨u, -, hturn, rfl, -⟩⟩ := edgeCost_cases hcosts hcost
      · exact hedge
      · exact (Exact.isReal_add _ _).2 ⟨hedge, hturn⟩
    have himproves : improves s.labels v.adj (e.weight + c) =
        ((toTurnWave s).label v.adj).all (e.weight + c < ·.1) := by
      show _ = Option.all _ ((s.labels[v.adj]?).map readArrival)
      unfold improves
      cases s.labels[v.adj]? <;> rfl
    show toTurnWave (if improves s.labels v.adj (e.weight + c) = true then _ else _) =
      Wave.relax e.weight (toTurnWave s) ⟨v.adj, c, (e.node, v.edge, l.millis.plus m)⟩
    unfold Wave.relax
    simp only [Exact.isFinite_iff, hfin, true_and, himproves]
    split
    · unfold toTurnWave improve
      simp only [labelled_insert]
      rfl
    · rfl

theorem toTurnWave_leave (hcosts : w.hasTurnCosts = true) (e : FrontierEntry Exact)
    {l : Label Exact} (hroot : l.parent = none → l.millis = Millis.zero) (s : Search Exact) :
    toTurnWave ((Network.edges g e.node).foldl (relax w e l) s) =
      (turnLinks g w e.node (readArrival l).2).foldl (Wave.relax e.weight) (toTurnWave s) := by
  unfold turnLinks
  induction Network.edges g e.node generalizing s with
  | nil => rfl
  | cons v vs ih =>
    rw [List.foldl_cons, ih, toTurnWave_relax hcosts e hroot, List.filterMap_cons]
    cases turnLink w e.node (readArrival l).2 v <;> rfl

/-! ## §4. Running. -/

/-- **The invariant of the search**: labels of settled nodes are final, and each of them was
written in view of the label before it. -/
structure Tracked (g : G) (w : Weighting Exact) (source : NodeId) (s : Search Exact) : Prop where
  settled : ∃ done floor, Settled (taken (turnLinks g w) (toTurnWave s) done) source
    (toTurnWave s) done floor
  root : RootAtZero s.labels

/-- At the start no node is settled. -/
theorem settled_of_start (g : G) (w : Weighting Exact) (source : NodeId) :
    Settled (taken (turnLinks g w) (toTurnWave (start source)) []) source
      (toTurnWave (start source)) [] 0 ∧ RootAtZero (start source : Search Exact).labels := by
  have hwave : toTurnWave (start source) = Wave.start source := by
    unfold toTurnWave start Wave.start Frontier.start
    rw [labelled_start readArrival source _ (by simp [readArrival]), Exact.zero_eq]
    rfl
  refine ⟨hwave ▸ settled_start _ source, fun n l hl _ => ?_⟩
  obtain ⟨-, rfl⟩ | hl := getElem?_insert_cases hl
  · rfl
  · simp at hl

theorem tracked_start (g : G) (w : Weighting Exact) (source : NodeId) :
    Tracked g w source (start source) :=
  ⟨⟨[], 0, (settled_of_start g w source).1⟩, (settled_of_start g w source).2⟩

/-- Relaxing labels no node without a parent. -/
theorem root_relax {s : Search Exact} {e : FrontierEntry Exact} {label : Label Exact}
    (h : RootAtZero s.labels) (v : EdgeView Exact) :
    RootAtZero (relax w e label s v).labels := by
  intro n l hl hparent
  unfold relax at hl
  split at hl
  · exact h n l hl hparent
  · dsimp only at hl
    split at hl
    · obtain ⟨-, rfl⟩ | hl := getElem?_insert_cases hl
      · cases hparent
      · exact h n l hl hparent
    · exact h n l hl hparent

variable {s : Search Exact}

/-- **One step of the search**: the next entry is of a labelled node.  If it is current its node is
settled and left; if it has been overtaken it is dropped. -/
theorem next_settled {done : List NodeId} {floor : ℝ}
    (hsettled : Settled (taken (turnLinks g w) (toTurnWave s) done) source (toTurnWave s) done floor)
    (hroot : RootAtZero s.labels) (hw : NonnegWeights g w) (hturns : NonnegTurns w)
    (hcosts : w.hasTurnCosts = true) {e : FrontierEntry Exact} {rest : Frontier Exact}
    (hf : s.frontier = e :: rest) :
    ∃ l, s.labels[e.node]? = some l ∧
      (e.weight ≤ l.weight → ∀ s',
        s' = (Network.edges g e.node).foldl (relax w e l) { s with frontier := rest } →
          RootAtZero s'.labels ∧ ∃ floor', Settled (taken (turnLinks g w) (toTurnWave s')
            (done ++ [e.node])) source (toTurnWave s') (done ++ [e.node]) floor') ∧
      (¬ e.weight ≤ l.weight → Settled (taken (turnLinks g w) (toTurnWave s) done) source
        (toTurnWave { s with frontier := rest }) done floor) := by
  have hmem : e ∈ s.frontier := hf ▸ List.mem_cons_self
  obtain ⟨x, y, t, he, -, hlabel, hle⟩ := hsettled.entry e hmem
  obtain ⟨l, hl, hread⟩ := Option.map_eq_some_iff.1 hlabel
  have hx : l.weight = .real x := congrArg Prod.fst hread
  refine ⟨l, hl, fun hcurrent s' hs' => ⟨?_, x, ?_⟩, fun hovertaken => ?_⟩
  · rw [hs']
    refine List.foldlRecOn (motive := fun s : Search Exact => RootAtZero s.labels)
      _ _ ?_ fun s hs v _ => root_relax hs v
    exact hroot
  · -- The node is left in view of the edge by which it was reached.
    obtain rfl : x = y := le_antisymm hle (by simpa [he, hx] using hcurrent)
    have ht : (readArrival l).2 = t := congrArg Prod.snd hread
    refine hsettled.leaveNode (nonneg_turnLinks hw hturns hcosts) hf he hlabel ?_
    rw [hs', toTurnWave_leave hcosts e (hroot e.node l hl), he, ht]
    rfl
  · have hxy : x < y := by simpa [he, hx] using hovertaken
    exact hsettled.drop hf he hlabel hxy

theorem Tracked.next (h : Tracked g w source s) (hw : NonnegWeights g w) (hturns : NonnegTurns w)
    (hcosts : w.hasTurnCosts = true) {e : FrontierEntry Exact} {rest : Frontier Exact}
    (hf : s.frontier = e :: rest) :
    ∃ l, s.labels[e.node]? = some l ∧
      (e.weight ≤ l.weight → Tracked g w source
        ((Network.edges g e.node).foldl (relax w e l) { s with frontier := rest })) ∧
      (¬ e.weight ≤ l.weight → Tracked g w source { s with frontier := rest }) := by
  obtain ⟨⟨done, floor, hsettled⟩, hroot⟩ := h
  obtain ⟨l, hl, hleft, hdropped⟩ := next_settled hsettled hroot hw hturns hcosts hf
  refine ⟨l, hl, fun hcurrent => ?_, fun hovertaken => ⟨⟨done, floor, hdropped hovertaken⟩, hroot⟩⟩
  obtain ⟨hroot', floor', hsettled'⟩ := hleft hcurrent _ rfl
  exact ⟨⟨_, floor', hsettled'⟩, hroot'⟩

/-- **A whole run** keeps the invariant. -/
theorem Tracked.run (h : Tracked g w source s) (hw : NonnegWeights g w) (hturns : NonnegTurns w)
    (hcosts : w.hasTurnCosts = true) {fuel : Nat} {labels : Labels Exact}
    (hrun : Search.run g w target fuel s = some labels) :
    ∃ s', s'.labels = labels ∧ Tracked g w source s' := by
  refine run_induction (P := Tracked g w source) (fun q e rest l hq hf hl hcurrent => ?_)
    (fun q e rest hq hf hovertaken => ?_) h hrun
  · obtain ⟨l', hl', hleft, -⟩ := hq.next hw hturns hcosts hf
    obtain rfl := Option.some.inj (hl.symm.trans hl')
    exact hleft hcurrent
  · obtain ⟨l, hl, -, hdropped⟩ := hq.next hw hturns hcosts hf
    exact hdropped (hovertaken l hl)

/-- An edge that is closed, or into which the turn is, changes nothing. -/
theorem relax_of_closed {e : FrontierEntry Exact} {l : Label Exact} {v : EdgeView Exact}
    (hcost : edgeCost w e.node (l.parent.map (·.2)) v = none) : relax w e l s v = s := by
  unfold relax
  rw [hcost]

/-- An open edge to a node without a label gives it one. -/
theorem relax_of_new {e : FrontierEntry Exact} {l : Label Exact} {v : EdgeView Exact} {c : Exact}
    {m : Millis} (hcost : edgeCost w e.node (l.parent.map (·.2)) v = some (c, m))
    (hnew : s.labels[v.adj]? = none) :
    relax w e l s v =
      ⟨s.labels.insert v.adj ⟨e.weight + c, l.millis.plus m, some (e.node, v.edge)⟩,
        s.frontier.insert ⟨e.weight + c, v.adj⟩⟩ := by
  unfold relax improves
  rw [hcost]
  simp [hnew]

/-- A current entry of a node that is not the target: its node is left. -/
theorem run_leave {fuel : Nat} {e : FrontierEntry Exact} {rest : Frontier Exact}
    {l : Label Exact} (hf : s.frontier = e :: rest) (hl : s.labels[e.node]? = some l)
    (hle : e.weight ≤ l.weight) (ht : e.node ≠ target) :
    run g w target (fuel + 1) s =
      run g w target fuel ((Network.edges g e.node).foldl (relax w e l) ⟨s.labels, rest⟩) := by
  rw [run, hf]
  simp only [hl, hle, ht, if_true, if_false]

/-- A current entry of the target ends the search. -/
theorem run_arrive {fuel : Nat} {e : FrontierEntry Exact} {rest : Frontier Exact}
    {l : Label Exact} (hf : s.frontier = e :: rest) (hl : s.labels[e.node]? = some l)
    (hle : e.weight ≤ l.weight) (ht : e.node = target) :
    run g w target (fuel + 1) s = some s.labels := by
  subst ht
  rw [run, hf]
  simp only [hl, hle, if_true]

/-! ## §5. The way back. -/

theorem toTurnWave_label {n : NodeId} {l : Label Exact} (hl : s.labels[n]? = some l) :
    (toTurnWave s).label n = some (l.weight, (readArrival l).2) := by
  simp [toTurnWave, labelled, hl, readArrival]

section Back

variable {done : List NodeId} {floor : ℝ}
  (hsettled : Settled (taken (turnLinks g w) (toTurnWave s) done) source (toTurnWave s) done floor)
  (hroot : RootAtZero s.labels) {n : NodeId} {l : Label Exact} (hl : s.labels[n]? = some l)

include hsettled hroot hl

/-- **A label without a parent** is that of the source, where nothing has been paid. -/
theorem label_of_root (hp : l.parent = none) :
    n = source ∧ l = ⟨.real 0, Millis.zero, none⟩ := by
  obtain rfl : n = source := hsettled.only_root (by
    rw [toTurnWave_label hl, readArrival, hp]
    rfl)
  have hzero : l.weight = .real 0 := by
    simpa [toTurnWave_label hl] using congrArg (Option.map Prod.fst) hsettled.root
  refine ⟨rfl, ?_⟩
  obtain ⟨weight, millis, parent⟩ := l
  simp only [Label.mk.injEq]
  exact ⟨hzero, hroot n _ hl hp, hp⟩

/-- **A label with a parent** is the one that its edge gives after the label of the parent, which
was settled before. -/
theorem label_of_parent {p : NodeId} {edge : EdgeId} (hp : l.parent = some (p, edge)) :
    p ∈ done ∧ (n ∈ done → done.idxOf p < done.idxOf n) ∧
      ∃ lp, s.labels[p]? = some lp ∧ ∃ v ∈ Network.edges g p, v.adj = n ∧ v.edge = edge ∧
        ∃ c m, edgeCost w p (lp.parent.map (·.2)) v = some (c, m) ∧
          l = ⟨lp.weight + c, lp.millis.plus m, some (p, edge)⟩ := by
  have htag : (toTurnWave s).label n = some (l.weight, some (p, edge, l.millis)) := by
    rw [toTurnWave_label hl, readArrival, hp]
    rfl
  obtain ⟨p', hpdone, hbefore, k, hk, hknode, hktag, b, t, hb, hsum⟩ := hsettled.parent htag
  obtain ⟨-, a, t', hb', hk⟩ := mem_taken hk
  obtain ⟨rfl, rfl⟩ : b = a ∧ t = t' := by simpa [hb] using hb'
  obtain ⟨v, hv, c, m, hcost, rfl⟩ := mem_turnLinks.1 hk
  obtain ⟨rfl, rfl, hmillis⟩ : p' = p ∧ v.edge = edge ∧ _ = l.millis := by
    simpa only [Prod.mk.injEq] using hktag
  obtain ⟨lp, hlp, hread⟩ := Option.map_eq_some_iff.1 hb
  -- The link was taken in view of the label of the parent, which has not changed since.
  obtain rfl : (readArrival lp).2 = t := congrArg Prod.snd hread
  rw [readArrival_edge] at hcost
  rw [readArrival_millis (hroot p' lp hlp)] at hmillis
  refine ⟨hpdone, hbefore, lp, hlp, v, hv, hknode, rfl, c, m, hcost, ?_⟩
  obtain ⟨weight, millis, parent⟩ := l
  simp only [Label.mk.injEq]
  exact ⟨hsum.trans (congrArg (· + c) (congrArg Prod.fst hread).symm), hmillis.symm, hp⟩

/-- **The way back from a label** is a walk that pays for it and passes no node twice: every node
on the way was settled before the next one. -/
theorem charged_of_trace (hbase : ∀ n, ∀ v ∈ Network.edges g n, v.base = n)
    (hcosts : w.hasTurnCosts = true) {fuel : Nat} {ns : List NodeId} {es : List EdgeId}
    {found : List NodeId × List EdgeId} (htrace : trace s.labels fuel n ns es = some found) :
    ∃ vs, Charged g w source vs n l ∧
      found = (source :: (vs.map (·.adj) ++ ns), vs.map (·.edge) ++ es) ∧
      (source :: vs.map (·.adj)).Nodup ∧
      ∀ m ∈ source :: vs.map (·.adj),
        m = n ∨ (m ∈ done ∧ (n ∈ done → done.idxOf m < done.idxOf n)) := by
  -- Induction on the fuel.  What leads to the parent was settled no later than the parent, so no
  -- node comes twice.
  induction fuel generalizing n l ns es with
  | zero => cases htrace
  | succ fuel ih =>
    rw [trace] at htrace
    cases hp : l.parent with
    | none =>
      obtain ⟨rfl, hstart⟩ := label_of_root hsettled hroot hl hp
      obtain rfl := Option.some.inj ((by simpa [hl, hp] using htrace : some (n :: ns, es) = _))
      refine ⟨[], ⟨⟨rfl, by simp⟩, by simp [hp], by simp, by simp [turnsAlong], ?_, ?_⟩, by simp,
        by simp, by simp⟩
      · simp [hstart, walkWeight, turnsAlong]
      · rw [hstart]
        rfl
    | some pe =>
      obtain ⟨p, edge⟩ := pe
      obtain ⟨hpdone, hbefore, lp, hlp, v, hv, rfl, rfl, c, m, hcost, rfl⟩ :=
        label_of_parent hsettled hroot hl hp
      simp only [hl, Option.bind_some] at htrace
      obtain ⟨vs, hcharged, rfl, hnodup, hearlier⟩ := ih hlp htrace
      have hsnoc := hcharged.snoc hcosts hv (hbase p v hv) hcost
      -- The node itself is none of those on the way to its parent.
      have hnew : ∀ m ∈ source :: vs.map (·.adj),
          m ≠ v.adj ∧ m ∈ done ∧ (v.adj ∈ done → done.idxOf m < done.idxOf v.adj) := by
        intro m hm
        have hm : m ∈ done ∧ (v.adj ∈ done → done.idxOf m < done.idxOf v.adj) := by
          obtain rfl | ⟨hmdone, hlt⟩ := hearlier m hm
          · exact ⟨hpdone, hbefore⟩
          · exact ⟨hmdone, fun hn => (hlt hpdone).trans (hbefore hn)⟩
        refine ⟨?_, hm⟩
        rintro rfl
        exact lt_irrefl _ (hm.2 hm.1)
      refine ⟨vs ++ [v], hsnoc, by simp, ?_, fun m hm => ?_⟩
      · rw [List.map_append, ← List.cons_append, List.map_singleton]
        refine List.nodup_append.2 ⟨hnodup, by simp, fun m hm n' hn' => ?_⟩
        rw [List.mem_singleton.1 hn']
        exact (hnew m hm).1
      · rw [List.map_append, ← List.cons_append, List.map_singleton] at hm
        obtain hm | hm := List.mem_append.1 hm
        · exact .inr (hnew m hm).2
        · exact .inl (List.mem_singleton.1 hm)

end Back

end Search

/-! ## §6. Paths. -/

section Paths

variable {G : Type} [Network G Exact] {g : G} {w : Weighting Exact} {s t : NodeId}

/-- **A path that accounts for what it says**: it follows edges that the graph offers, each found
again by its number and its end; it passes no node twice; its edges and turns are open; and its
weight, time and distance are what they come to in all. -/
structure Accounted (g : G) (w : Weighting Exact) (s t : NodeId) (p : Path Exact)
    (vs : List (EdgeView Exact)) : Prop where
  walk : IsWalk g s vs t
  nodes : p.nodes = s :: vs.map (·.adj)
  edges : p.edges = vs.map (·.edge)
  found : ∀ v ∈ vs, Network.edge g v.edge (some v.adj) = .ok v
  simple : p.nodes.Nodup
  edges_open : ∀ v ∈ vs, (w.edgeWeight v false).IsReal
  turns_open : ∀ turn ∈ turnsAlong vs, (w.turnWeight turn).IsReal
  weight : p.weight = walkWeight w vs + total ((turnsAlong vs).map w.turnWeight)
  millis : p.millis =
    Millis.sum (vs.map (w.edgeMillis · false) ++ (turnsAlong vs).map w.turnMillis)
  distance : p.distance = total (vs.map (·.distance))

/-- What the search answers, step by step. -/
theorem dijkstra_of_run (hst : s ≠ t) {labels : Labels Exact} {l : Label Exact}
    {nodes : List NodeId} {edges : List EdgeId} {d : Exact}
    (hrun : Search.run g w t (Search.limit g) (Search.start s) = some labels)
    (hl : labels[t]? = some l)
    (htrace : Search.trace labels labels.size t [] [] = some (nodes, edges))
    (hd : Path.length? g (edges.zip (nodes.drop 1)) = some d) :
    dijkstra g w s t = some ⟨nodes, edges, l.weight, d, l.millis⟩ := by
  simp only [dijkstra, hst, if_false, hrun, hl, htrace, hd, Option.bind_eq_bind, Option.bind_some,
    Option.pure_def]

/-- The length of a way is the sum of the distances of its edges. -/
theorem Path.length?_eq {vs : List (EdgeView Exact)}
    (hfound : ∀ v ∈ vs, Network.edge g v.edge (some v.adj) = .ok v) :
    Path.length? g ((vs.map (·.edge)).zip (vs.map (·.adj))) =
      some (total (vs.map (·.distance))) := by
  unfold Path.length?
  rw [← Exact.zero_add (total _), ← Exact.zero_eq]
  -- The sum so far is the start of what follows.
  generalize (0 : Exact) = d
  induction vs generalizing d with
  | nil => simp [Exact.add_zero]
  | cons v vs ih =>
    simp only [List.map_cons, List.zip_cons_cons, List.foldlM_cons, hfound v (by simp),
      Option.bind_eq_bind, Option.bind_some]
    rw [ih (fun u hu => hfound u (by simp [hu])), Exact.total_cons, Exact.add_assoc]

/-- **Paths account for themselves**, where turns are charged and nothing weighs less than
nothing. -/
theorem exists_accounted (hbase : ∀ n, ∀ v ∈ Network.edges g n, v.base = n)
    (hfound : ∀ n, ∀ v ∈ Network.edges g n, Network.edge g v.edge (some v.adj) = .ok v)
    (hw : NonnegWeights g w) (hturns : NonnegTurns w) (hcosts : w.hasTurnCosts = true)
    (hst : s ≠ t) {p : Path Exact} (hp : dijkstra g w s t = some p) :
    ∃ vs, Accounted g w s t p vs := by
  unfold dijkstra at hp
  simp only [hst, if_false, Option.bind_eq_bind, Option.bind_eq_some_iff, Option.pure_def,
    Option.some.injEq, Prod.exists] at hp
  obtain ⟨labels, hrun, l, hl, ns, es, htrace, d, hd, rfl⟩ := hp
  obtain ⟨s', rfl, ⟨done, floor, hsettled⟩, hroot⟩ :=
    (Search.tracked_start g w s).run hw hturns hcosts hrun
  obtain ⟨vs, hcharged, heq, hnodup, -⟩ :=
    Search.charged_of_trace hsettled hroot hl hbase hcosts htrace
  obtain ⟨rfl, rfl⟩ : ns = s :: vs.map (·.adj) ∧ es = vs.map (·.edge) := by simpa using heq
  have hviews : ∀ v ∈ vs, Network.edge g v.edge (some v.adj) = .ok v := fun v hv =>
    hfound v.base v (hcharged.walk.2 v hv)
  have hlength : d = total (vs.map (·.distance)) :=
    Option.some.inj (hd.symm.trans (Path.length?_eq hviews))
  exact ⟨vs, hcharged.walk, rfl, rfl, hviews, hnodup, hcharged.edges_open, hcharged.turns_open,
    hcharged.weight, hcharged.millis, hlength⟩

end Paths

end RoadSplice

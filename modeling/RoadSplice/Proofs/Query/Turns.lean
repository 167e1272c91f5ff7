/-
  RoadSplice.Proofs.Query.Turns — paths of graphs in use, where turns are charged.

  Whatever the search answers on a graph or a query graph keeps to open edges and open turns, and
  says exactly what they cost.  A weighting that is carried over to a query graph charges turns
  as before at real nodes and forbids turning round at virtual ones, so it needs no more than the
  weighting itself.
-/
import RoadSplice.Proofs.Query.Opened
import RoadSplice.Proofs.Search.Turns

namespace RoadSplice

/-! ## §1. Turns of a weighting carried over. -/

/-- What a weighting carried over to a query graph says of an open turn. -/
theorem QueryGraph.isReal_acrossOverlay {o : Overlay Exact} {cost : Turn → Exact} {turn : Turn}
    (h : (acrossOverlay o cost turn).IsReal) :
    (o.isVirtualNode turn.via = true → o.isUTurn turn.inEdge turn.outEdge = false) ∧
      (o.isVirtualNode turn.via = false → (cost (roadTurn o turn)).IsReal) := by
  unfold acrossOverlay at h
  split at h
  · rename_i hvirtual
    refine ⟨fun _ => ?_, fun hreal => by simp [hvirtual] at hreal⟩
    by_contra hturn
    obtain ⟨x, hx⟩ : Exact.IsReal (Scalar.infinity : Exact) := by simpa [hturn] using h
    cases hx
  · rename_i hreal
    exact ⟨fun hvirtual => absurd hvirtual hreal, fun _ => h⟩

theorem NonnegTurns.wrap {w : Weighting Exact} (h : NonnegTurns w) (o : Overlay Exact) :
    NonnegTurns (QueryGraph.wrap o w) := by
  intro turn c hc
  have hc : QueryGraph.acrossOverlay o w.turnWeight turn = .real c := hc
  unfold QueryGraph.acrossOverlay at hc
  split at hc
  · split at hc
    · cases hc
    · obtain rfl : 0 = c := by simpa using hc
      exact le_rfl
  · exact h _ c hc

/-- Edges weigh the same after a weighting has been carried over. -/
theorem NonnegWeights.wrap {n m : Layered Exact} {w : Weighting Exact} (h : NonnegWeights n w) :
    NonnegWeights n (m.wrap w) := by
  cases m <;> exact h

/-! ## §2. Paths with turns. -/

/-- **No path takes a forbidden turn, and each accounts exactly for what it says.**  This holds on
every graph in use, and also for the weighting carried over to it: at virtual nodes paths never
turn round, and at real nodes the turn between the roads behind the edges is open. -/
theorem dijkstra_accounts_for_turns {n : Layered Exact} (hn : n.Opened) {w : Weighting Exact}
    (hw : NonnegWeights n w) (hturns : NonnegTurns w) (hcosts : w.hasTurnCosts = true)
    {s t : NodeId} (hst : s ≠ t) :
    (∀ p, dijkstra n w s t = some p → ∃ vs, Accounted n w s t p vs) ∧
      ∀ p, dijkstra n (n.wrap w) s t = some p → ∃ vs, Accounted n (n.wrap w) s t p vs ∧
        ∀ q, n = .spliced q → ∀ turn ∈ turnsAlong vs,
          (q.isVirtualNode turn.via = true →
            q.overlay.isUTurn turn.inEdge turn.outEdge = false) ∧
          (q.isVirtualNode turn.via = false →
            (w.turnWeight (QueryGraph.roadTurn q.overlay turn)).IsReal) := by
  have hbase := hn.readable.base_eq
  have hfound : ∀ m, ∀ v ∈ Network.edges n m, Network.edge n v.edge (some v.adj) = .ok v :=
    fun _ _ hv => hn.edge_of_mem hv
  refine ⟨fun p hp => exists_accounted hbase hfound hw hturns hcosts hst hp, fun p hp => ?_⟩
  have hturns' : NonnegTurns (n.wrap w) := by
    cases n with
    | plain g => exact hturns
    | spliced q => exact hturns.wrap q.overlay
  have hcosts' : (n.wrap w).hasTurnCosts = true := by
    cases n <;> exact hcosts
  obtain ⟨vs, hvs⟩ := exists_accounted hbase hfound hw.wrap hturns' hcosts' hst hp
  refine ⟨vs, hvs, ?_⟩
  rintro q rfl turn hturn
  exact QueryGraph.isReal_acrossOverlay (hvs.turns_open turn hturn)

/-! ## §3. Two roads in a row. -/

section TwoRoads

open RoadGraph

/-- Three nodes, and a road from each to the next one. -/
noncomputable def twoRoads : RoadGraph Exact :=
  after (addEdge 1 2 (.real 1))
    (after (addEdge 0 1 (.real 1)) (after (setNode 2 origin) (empty false)))

/-- Every edge and every turn costs something, and no edge is left by which it was entered. -/
noncomputable def dearTurns : Weighting Exact :=
  { edgeWeight := fun _ _ => .real 1
    edgeMillis := fun _ _ => ⟨1000⟩
    turnWeight := fun turn => if turn.inEdge = turn.outEdge then .infinite false else .real 5
    turnMillis := fun _ => ⟨5000⟩
    hasTurnCosts := true }

namespace TwoRoads

/-- The labels of the three nodes, as the search writes them. -/
noncomputable def label : Nat → Label Exact
  | 0 => ⟨.real 0, ⟨0⟩, none⟩
  | 1 => ⟨.real 1, ⟨1000⟩, some (0, 0)⟩
  | _ => ⟨.real 7, ⟨7000⟩, some (1, 1)⟩

/-- The labels of the first nodes. -/
noncomputable def labels : Nat → Labels Exact
  | 0 => Std.TreeMap.empty
  | n + 1 => (labels n).insert n (label n)

theorem labels_get (n : Nat) (m : NodeId) : (labels n)[m]? = if m < n then some (label m) else none := by
  induction n with
  | zero => exact Std.TreeMap.getElem?_emptyc
  | succ n ih =>
    rw [labels, Std.TreeMap.getElem?_insert, ih]
    by_cases h : m = n
    · subst h
      simp
    · have hne : compare n m ≠ .eq := fun heq => h (Nat.compare_eq_eq.1 heq).symm
      simp only [hne, if_false]
      have hlt : m < n + 1 ↔ m < n :=
        ⟨fun hm => Nat.lt_of_le_of_ne (Nat.le_of_lt_succ hm) h, Nat.lt_succ_of_lt⟩
      simp only [hlt]

theorem size_labels (n : Nat) : (labels n).size = n := by
  induction n with
  | zero => rfl
  | succ n ih =>
    have hfresh : (labels n).contains n = false := by
      rw [Std.TreeMap.contains_eq_isSome_getElem?, labels_get]
      simp
    rw [labels, Std.TreeMap.size_insert, ih]
    simp [hfresh]

/-- **The first node** is left along the first road. -/
theorem leave_first : (Network.edges (Layered.plain twoRoads) 0).foldl
    (Search.relax dearTurns ⟨.real 0, 0⟩ (label 0)) ⟨labels 1, []⟩ =
      ⟨labels 2, [⟨.real 1, 1⟩]⟩ := by
  show Search.relax _ _ _ _ (twoRoads.view ⟨0, 0, 1, false⟩) = _
  have hcost : Search.edgeCost dearTurns 0 ((label 0).parent.map (·.2))
      (twoRoads.view ⟨0, 0, 1, false⟩) = some (.real 1, ⟨1000⟩) := by
    simp [Search.edgeCost, dearTurns, label, Exact.isFinite_real]
  have hnew : (labels 1)[1]? = none := by rw [labels_get]; rfl
  rw [Search.relax_of_new hcost hnew]
  simp [label, labels, Frontier.insert, view, Millis.plus, Millis.unusable]

/-- **The second node** is left along the second road: turning back is forbidden. -/
theorem leave_second : (Network.edges (Layered.plain twoRoads) 1).foldl
    (Search.relax dearTurns ⟨.real 1, 1⟩ (label 1)) ⟨labels 2, []⟩ =
      ⟨labels 3, [⟨.real 7, 2⟩]⟩ := by
  show Search.relax _ _ _ (Search.relax _ _ _ _ (twoRoads.view ⟨0, 1, 0, true⟩))
    (twoRoads.view ⟨1, 1, 2, false⟩) = _
  have hback : Search.edgeCost dearTurns 1 ((label 1).parent.map (·.2))
      (twoRoads.view ⟨0, 1, 0, true⟩) = none := by
    simp [Search.edgeCost, dearTurns, label, view, Exact.isFinite_real, Exact.isFinite_infinite]
  have hon : Search.edgeCost dearTurns 1 ((label 1).parent.map (·.2))
      (twoRoads.view ⟨1, 1, 2, false⟩) = some (.real 6, ⟨6000⟩) := by
    have hsum : (1 : ℝ) + 5 = 6 := by norm_num
    simp [Search.edgeCost, dearTurns, label, view, Exact.isFinite_real, hsum, Millis.plus,
      Millis.unusable]
  have hnew : (labels 2)[2]? = none := by rw [labels_get]; rfl
  have hsum : (1 : ℝ) + 6 = 7 := by norm_num
  have hstay : Search.relax dearTurns ⟨.real 1, 1⟩ (label 1) ⟨labels 2, []⟩
      (twoRoads.view ⟨0, 1, 0, true⟩) = ⟨labels 2, []⟩ := Search.relax_of_closed hback
  rw [hstay, Search.relax_of_new hon hnew]
  simp [label, labels, Frontier.insert, view, Millis.plus, Millis.unusable, hsum]

end TwoRoads

/-- The search takes both roads. -/
theorem exists_path_twoRoads : ∃ p, dijkstra (Layered.plain twoRoads) dearTurns 0 2 = some p ∧
    p.nodes = [0, 1, 2] ∧ p.edges = [0, 1] := by
  have hget : ∀ m : NodeId, m < 3 → (TwoRoads.labels 3)[m]? = some (TwoRoads.label m) := by
    intro m hm
    rw [TwoRoads.labels_get, if_pos hm]
  have hstart : (Search.start 0 : Search Exact) = ⟨TwoRoads.labels 1, [⟨.real 0, 0⟩]⟩ := by
    simp [Search.start, Frontier.start, TwoRoads.labels, TwoRoads.label, Millis.zero]
  have hrun : Search.run (Layered.plain twoRoads) dearTurns 2
      (Search.limit (Layered.plain twoRoads)) (Search.start 0) = some (TwoRoads.labels 3) := by
    -- Two nodes are left, and then the target is taken.
    rw [hstart, show Search.limit (Layered.plain twoRoads) = 37 + 1 + 1 + 1 from rfl,
      Search.run_leave rfl (TwoRoads.labels_get 1 0) (by simp [TwoRoads.label]) (by decide),
      TwoRoads.leave_first,
      Search.run_leave rfl (TwoRoads.labels_get 2 1) (by simp [TwoRoads.label]) (by decide),
      TwoRoads.leave_second]
    exact Search.run_arrive rfl (TwoRoads.labels_get 3 2) (by simp [TwoRoads.label]) rfl
  have htrace : Search.trace (TwoRoads.labels 3) (TwoRoads.labels 3).size 2 [] [] =
      some ([0, 1, 2], [0, 1]) := by
    rw [TwoRoads.size_labels]
    simp [Search.trace, hget, TwoRoads.label]
  obtain ⟨d, hd⟩ : ∃ d, Path.length? (Layered.plain twoRoads) [(0, 1), (1, 2)] = some d := ⟨_, rfl⟩
  exact ⟨_, dijkstra_of_run (by decide) hrun (hget 2 (by decide)) htrace hd, rfl, rfl⟩

/-- **A route over both roads**, with the turn between them. -/
theorem dijkstra_accounts_for_turns_twoRoads :
    (Layered.Opened (.plain twoRoads) ∧ NonnegWeights (Layered.plain twoRoads) dearTurns ∧
      NonnegTurns dearTurns ∧ dearTurns.hasTurnCosts = true ∧ (0 : NodeId) ≠ 2) ∧
    ∃ p vs, dijkstra (Layered.plain twoRoads) dearTurns 0 2 = some p ∧ p.nodes = [0, 1, 2] ∧
      p.edges = [0, 1] ∧ Accounted (Layered.plain twoRoads) dearTurns 0 2 p vs := by
  have hopened : Layered.Opened (.plain twoRoads) :=
    .plain (.addEdge _ _ _ (.addEdge _ _ _ (.setNode _ _ (.empty false))))
  have hweights : NonnegWeights (Layered.plain twoRoads) dearTurns := by
    rintro u v c ⟨e, -, -, hc⟩
    obtain rfl : 1 = c := by simpa [dearTurns] using hc
    exact zero_le_one
  have hturns : NonnegTurns dearTurns := by
    intro turn c hc
    have hc : (if turn.inEdge = turn.outEdge then Exact.infinite false else .real 5) = .real c := hc
    split at hc
    · cases hc
    · obtain rfl : 5 = c := by simpa using hc
      norm_num
  have hst : (0 : NodeId) ≠ 2 := by decide
  obtain ⟨p, hp, hnodes, hedges⟩ := exists_path_twoRoads
  obtain ⟨haccounts, -⟩ := dijkstra_accounts_for_turns hopened hweights hturns rfl hst
  obtain ⟨vs, hvs⟩ := haccounts p hp
  exact ⟨⟨hopened, hweights, hturns, rfl, hst⟩, p, vs, hp, hnodes, hedges, hvs⟩

end TwoRoads

end RoadSplice

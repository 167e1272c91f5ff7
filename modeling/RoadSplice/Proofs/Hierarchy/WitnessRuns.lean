/-
  RoadSplice.Proofs.Hierarchy.WitnessRuns — how a search for a witness goes on and ends.

  The search ends in one of four ways, tested for in a fixed order: at an entry that weighs too
  much, at the target, at a node too many, or with nothing left to take.  `Runs` keeps what the
  answer leaves out: the way of ending, the nodes that were settled, and the number of turns.
  That a reported witness has been walked needs nothing of the weights.
-/
import RoadSplice.Hierarchy.Contract
import RoadSplice.Proofs.Results
import RoadSplice.Proofs.Search.Frontier

namespace RoadSplice

/-! ## §1. Ways. -/

/-- **A way over arcs** past no blocked node, and what its arcs weigh in all. -/
inductive Way {K : Type} [Scalar K] (arcs : NodeId → List (Arc K)) (blocked : NodeId → Bool)
    (source : NodeId) : NodeId → K → Prop
  | here (hopen : blocked source = false) : Way arcs blocked source source 0
  | onward {n : NodeId} {w : K} {a : Arc K} (h : Way arcs blocked source n w) (ha : a ∈ arcs n)
      (hopen : blocked a.node = false) : Way arcs blocked source a.node (w + a.weight)

/-- A way weighs at least nothing where no arc weighs less. -/
theorem Way.zero_le {arcs : NodeId → List (Arc Exact)} {blocked : NodeId → Bool}
    (hweights : ∀ u, ∀ a ∈ arcs u, 0 ≤ a.weight) {source n : NodeId} {w : Exact}
    (h : Way arcs blocked source n w) : 0 ≤ w := by
  induction h with
  | here => simp
  | onward _ ha _ ih => exact Exact.zero_le_add ih (hweights _ _ ha)

namespace WitnessSearch

/-! ## §2. Runs of the search. -/

/-- How a search ends. -/
inductive Verdict where
  | found
  | tooHeavy
  | exhausted
  | gaveUp
deriving DecidableEq

/-- **What a verdict says** of the ways to the target. -/
def Verdict.Holds {K : Type} [Scalar K] (arcs : NodeId → List (Arc K)) (blocked : NodeId → Bool)
    (source target : NodeId) (maxWeight : K) (settled : List NodeId) : Verdict → Prop
  | .found => ∃ w, Way arcs blocked source target w ∧ w ≤ maxWeight
  | .tooHeavy | .exhausted => ¬ ∃ w, Way arcs blocked source target w ∧ w ≤ maxWeight
  | .gaveUp => witnessLimit < settled.length

/-- The number of arcs that leave some nodes. -/
def arcCount {K : Type} (arcs : NodeId → List (Arc K)) (nodes : List NodeId) : Nat :=
  (nodes.map fun n => (arcs n).length).sum

theorem arcCount_append_singleton {K : Type} (arcs : NodeId → List (Arc K))
    (nodes : List NodeId) (n : NodeId) :
    arcCount arcs (nodes ++ [n]) = arcCount arcs nodes + (arcs n).length := by
  simp [arcCount]

section Runs

variable {K : Type} [Scalar K] (arcs : NodeId → List (Arc K)) (blocked : NodeId → Bool)
  (target : NodeId) (maxWeight : K)

/-- **How a search goes on**, with some nodes settled already: how many entries it takes, how it
ends, and which nodes have been settled then. -/
inductive Runs : WitnessSearch K → List NodeId → Nat → Verdict → List NodeId → Prop
  | exhausted {s done} (hf : s.frontier = []) : Runs s done 0 .exhausted done
  | tooHeavy {s done e rest} (hf : s.frontier = e :: rest) (hheavy : maxWeight < e.weight) :
    Runs s done 1 .tooHeavy done
  | found {s done e rest} (hf : s.frontier = e :: rest) (hlight : ¬ maxWeight < e.weight)
      (htarget : e.node = target) : Runs s done 1 .found done
  | stale {s done e rest turns verdict settled} (hf : s.frontier = e :: rest)
      (hlight : ¬ maxWeight < e.weight) (htarget : e.node ≠ target)
      (hstale : (s.best[e.node]?).any (· < e.weight) = true)
      (h : Runs { s with frontier := rest } done turns verdict settled) :
    Runs s done (turns + 1) verdict settled
  | gaveUp {s done e rest} (hf : s.frontier = e :: rest) (hlight : ¬ maxWeight < e.weight)
      (htarget : e.node ≠ target) (hcurrent : ¬ (s.best[e.node]?).any (· < e.weight) = true)
      (hfull : witnessLimit ≤ done.length) : Runs s done 1 .gaveUp (done ++ [e.node])
  | settle {s done e rest turns verdict settled} (hf : s.frontier = e :: rest)
      (hlight : ¬ maxWeight < e.weight) (htarget : e.node ≠ target)
      (hcurrent : ¬ (s.best[e.node]?).any (· < e.weight) = true)
      (hroom : done.length < witnessLimit)
      (h : Runs ((arcs e.node).foldl (relax blocked e.weight) { s with frontier := rest })
        (done ++ [e.node]) turns verdict settled) :
    Runs s done (turns + 1) verdict settled

/-- **Every search ends**, and answers that there is a witness exactly when it ends at the
target. -/
theorem exists_runs (left : Nat) (s : WitnessSearch K) (done : List NodeId)
    (hleft : done.length + left = witnessLimit) :
    ∃ turns verdict settled, Runs arcs blocked target maxWeight s done turns verdict settled ∧
      run arcs blocked target maxWeight left s = (verdict == .found) := by
  fun_induction run arcs blocked target maxWeight left s generalizing done with
  | case1 left s hf => exact ⟨0, .exhausted, done, .exhausted hf, rfl⟩
  | case2 left s e rest hf hheavy => exact ⟨1, .tooHeavy, done, .tooHeavy hf hheavy, rfl⟩
  | case3 left s e rest hf hlight htarget => exact ⟨1, .found, done, .found hf hlight htarget, rfl⟩
  | case4 left s e rest hf hlight htarget hstale ih =>
    -- Nothing is settled, and as many nodes may be settled as before.
    obtain ⟨turns, verdict, settled, hruns, hanswer⟩ := ih done hleft
    exact ⟨turns + 1, verdict, settled, .stale hf hlight htarget hstale hruns, hanswer⟩
  | case5 s e rest hf hlight htarget hcurrent =>
    have hfull : witnessLimit ≤ done.length := by omega
    exact ⟨1, .gaveUp, done ++ [e.node], .gaveUp hf hlight htarget hcurrent hfull, rfl⟩
  | case6 s e rest hf hlight htarget hcurrent left ih =>
    have hroom : done.length < witnessLimit := by omega
    have hnext : (done ++ [e.node]).length + left = witnessLimit := by
      rw [List.length_append, List.length_singleton]
      omega
    obtain ⟨turns, verdict, settled, hruns, hanswer⟩ := ih (done ++ [e.node]) hnext
    exact ⟨turns + 1, verdict, settled, .settle hf hlight htarget hcurrent hroom hruns, hanswer⟩

/-- A node reached anew, at some weight. -/
def reach (s : WitnessSearch K) (n : NodeId) (w : K) : WitnessSearch K :=
  ⟨s.best.insert n w, s.frontier.insert ⟨w, n⟩⟩

theorem best_reach_self (s : WitnessSearch K) (n : NodeId) (w : K) :
    (s.reach n w).best[n]? = some w := by
  simp [reach]

theorem best_reach_of_ne {n m : NodeId} (h : n ≠ m) (s : WitnessSearch K) (w : K) :
    (s.reach m w).best[n]? = s.best[n]? := by
  unfold reach
  rw [Std.TreeMap.getElem?_insert, if_neg]
  intro heq
  exact h (Nat.compare_eq_eq.1 heq).symm

/-- **Following an arc** does nothing where it leads to a blocked node or does not improve the
label there; elsewhere the node is reached anew. -/
theorem relax_cases (w : K) (s : WitnessSearch K) (a : Arc K) :
    relax blocked w s a = s ∧
        (blocked a.node = true ∨ ∃ b, s.best[a.node]? = some b ∧ ¬ w + a.weight < b) ∨
      relax blocked w s a = s.reach a.node (w + a.weight) ∧ blocked a.node = false ∧
        ∀ b, s.best[a.node]? = some b → w + a.weight < b := by
  unfold relax
  cases hblocked : blocked a.node with
  | true => exact .inl ⟨rfl, .inl rfl⟩
  | false =>
    cases hb : s.best[a.node]? with
    | none =>
      refine .inr ⟨rfl, rfl, ?_⟩
      intro b hb
      cases hb
    | some b =>
      by_cases hlt : w + a.weight < b
      · refine .inr ⟨by simp [hlt, reach], rfl, ?_⟩
        intro b' hb'
        obtain rfl := Option.some.inj hb'
        exact hlt
      · exact .inl ⟨by simp [hlt], .inr ⟨b, rfl, hlt⟩⟩

theorem length_relax_le (w : K) (s : WitnessSearch K) (a : Arc K) :
    (relax blocked w s a).frontier.length ≤ s.frontier.length + 1 := by
  obtain ⟨hsame, -⟩ | ⟨hreach, -⟩ := relax_cases blocked w s a
  · rw [hsame]
    exact Nat.le_succ _
  · rw [hreach]
    exact Nat.le_of_eq (Frontier.length_insert _ _)

theorem length_relaxAll_le (w : K) (as : List (Arc K)) (s : WitnessSearch K) :
    (as.foldl (relax blocked w) s).frontier.length ≤ s.frontier.length + as.length := by
  induction as generalizing s with
  | nil => exact Nat.le_refl _
  | cons a as ih =>
    have hstep := length_relax_le blocked w s a
    have hrest := ih (relax blocked w s a)
    show (as.foldl (relax blocked w) (relax blocked w s a)).frontier.length ≤
      s.frontier.length + (as.length + 1)
    omega

/-- Arcs to blocked nodes are not followed. -/
theorem relaxAll_blocked (w : K) (s : WitnessSearch K) {as : List (Arc K)}
    (h : ∀ a ∈ as, blocked a.node = true) : as.foldl (relax blocked w) s = s := by
  induction as with
  | nil => rfl
  | cons a as ih =>
    have hsame : relax blocked w s a = s := by
      unfold relax
      simp [h a List.mem_cons_self]
    rw [List.foldl_cons, hsame]
    exact ih fun b hb => h b (List.mem_cons_of_mem a hb)

variable {arcs blocked target maxWeight}

/-- **A search that leads nowhere** settles no more nodes than it has entries. -/
theorem Runs.settled_le {s : WitnessSearch K} {done settled : List NodeId} {turns : Nat}
    {verdict : Verdict} (h : Runs arcs blocked target maxWeight s done turns verdict settled)
    (hblocked : ∀ e ∈ s.frontier, ∀ a ∈ arcs e.node, blocked a.node = true) :
    settled.length ≤ done.length + s.frontier.length := by
  induction h with
  | exhausted _ => exact Nat.le_add_right _ _
  | tooHeavy _ _ | found _ _ _ => exact Nat.le_add_right _ _
  | stale hf _ _ _ _ ih =>
    rw [hf] at hblocked ⊢
    exact (ih fun e he => hblocked e (List.mem_cons_of_mem _ he)).trans
      (Nat.add_le_add_left (Nat.le_succ _) _)
  | gaveUp hf _ _ _ _ =>
    rw [hf, List.length_append, List.length_singleton]
    exact Nat.add_le_add_left (Nat.succ_le_of_lt (Nat.succ_pos _)) _
  | @settle s done e rest turns verdict settled hf _ _ _ _ _ ih =>
    rw [hf] at hblocked ⊢
    rw [relaxAll_blocked _ _ _ (hblocked e List.mem_cons_self), List.length_append,
      List.length_singleton] at ih
    have hrest := ih fun e' he' => hblocked e' (List.mem_cons_of_mem e he')
    rw [List.length_cons]
    dsimp only at hrest
    omega

/-- **The number of turns.**  Each takes an entry, and an entry is there from the start or comes
from an arc of a settled node. -/
theorem Runs.turns_le {s : WitnessSearch K} {done settled : List NodeId} {turns : Nat}
    {verdict : Verdict} (h : Runs arcs blocked target maxWeight s done turns verdict settled) :
    turns + arcCount arcs done ≤ s.frontier.length + arcCount arcs settled := by
  -- Induction along the run: a turn takes an entry, and settling adds one for each arc at most.
  induction h with
  | exhausted hf => omega
  | tooHeavy hf _ | found hf _ _ =>
    rw [hf, List.length_cons]
    omega
  | @stale s done e rest turns verdict settled hf _ _ _ _ ih =>
    rw [hf, List.length_cons]
    show turns + 1 + _ ≤ _
    have hrest : turns + arcCount arcs done ≤ rest.length + arcCount arcs settled := ih
    omega
  | gaveUp hf _ _ _ _ =>
    rw [hf, List.length_cons, arcCount_append_singleton]
    omega
  | @settle s done e rest turns verdict settled hf _ _ _ _ _ ih =>
    have hgrown := length_relaxAll_le blocked e.weight (arcs e.node)
      { s with frontier := rest }
    rw [arcCount_append_singleton] at ih
    rw [hf, List.length_cons]
    dsimp only at hgrown
    omega

/-! ## §3. What is reported has been walked. -/

/-- **Entries and labels have been walked to.** -/
structure Walked (arcs : NodeId → List (Arc K)) (blocked : NodeId → Bool) (source : NodeId)
    (s : WitnessSearch K) : Prop where
  entry : ∀ e ∈ s.frontier, Way arcs blocked source e.node e.weight
  label : ∀ n b, s.best[n]? = some b → Way arcs blocked source n b

namespace Walked

variable {source : NodeId} {s : WitnessSearch K}

theorem start (hopen : blocked source = false) :
    Walked arcs blocked source (WitnessSearch.start source) where
  entry e he := by
    obtain rfl : e = ⟨0, source⟩ := List.mem_singleton.1 he
    exact .here hopen
  label n b hb := by
    obtain ⟨rfl, rfl⟩ | hb := getElem?_insert_cases hb
    · exact .here hopen
    · simp at hb

/-- Taking an entry away. -/
theorem drop (h : Walked arcs blocked source s) {e : FrontierEntry K} {rest : Frontier K}
    (hf : s.frontier = e :: rest) : Walked arcs blocked source { s with frontier := rest } where
  entry e' he' := h.entry e' (hf ▸ List.mem_cons_of_mem e he')
  label := h.label

theorem reach (h : Walked arcs blocked source s) {n : NodeId} {w : K}
    (hway : Way arcs blocked source n w) : Walked arcs blocked source (s.reach n w) where
  entry e he := by
    obtain rfl | he := Frontier.mem_insert.1 he
    · exact hway
    · exact h.entry e he
  label m b hb := by
    obtain ⟨rfl, rfl⟩ | hb := getElem?_insert_cases hb
    · exact hway
    · exact h.label m b hb

/-- Following an arc from a node that has been walked to. -/
theorem relax (h : Walked arcs blocked source s) {u : NodeId} {w : K}
    (hway : Way arcs blocked source u w) {a : Arc K} (ha : a ∈ arcs u) :
    Walked arcs blocked source (relax blocked w s a) := by
  obtain ⟨hsame, -⟩ | ⟨hreach, hopen, -⟩ := relax_cases blocked w s a
  · rw [hsame]
    exact h
  · rw [hreach]
    exact h.reach (.onward hway ha hopen)

theorem relaxAll (h : Walked arcs blocked source s) {u : NodeId} {w : K}
    (hway : Way arcs blocked source u w) {as : List (Arc K)} (has : as ⊆ arcs u) :
    Walked arcs blocked source (as.foldl (WitnessSearch.relax blocked w) s) := by
  induction as generalizing s with
  | nil => exact h
  | cons a as ih =>
    obtain ⟨ha, has⟩ := List.cons_subset.1 has
    exact ih (h.relax hway ha) has

/-- **A search that ends at the target** has walked there, at no more than the weight allowed. -/
theorem way_of_found (h : Walked arcs blocked source s) {done settled : List NodeId} {turns : Nat}
    (hruns : Runs arcs blocked target maxWeight s done turns .found settled) :
    ∃ w, Way arcs blocked source target w ∧ ¬ maxWeight < w := by
  generalize hverdict : Verdict.found = verdict at hruns
  induction hruns with
  | exhausted | tooHeavy | gaveUp => cases hverdict
  | @found s done e rest hf hlight htarget =>
    have hway := h.entry e (hf ▸ List.mem_cons_self)
    exact ⟨e.weight, htarget ▸ hway, hlight⟩
  | stale hf _ _ _ _ ih => exact ih (h.drop hf) hverdict
  | @settle s done e rest turns verdict settled hf _ _ _ _ _ ih =>
    have hway := h.entry e (hf ▸ List.mem_cons_self)
    exact ih ((h.drop hf).relaxAll hway (List.Subset.refl _)) hverdict

end Walked

end Runs

/-- **A reported witness has been walked**, whatever arcs may weigh. -/
theorem way_of_hasWitness {K : Type} [Scalar K] {arcs : Arcs K} {contracted : NodeId → Bool}
    {start target avoid : NodeId} {maxWeight : K}
    (hopen : (start == avoid || contracted start) = false)
    (h : hasWitness arcs contracted start target avoid maxWeight = true) :
    ∃ w, Way arcs.outOf (fun n => n == avoid || contracted n) start target w ∧ ¬ maxWeight < w := by
  obtain ⟨turns, verdict, settled, hruns, hanswer⟩ :=
    exists_runs arcs.outOf (fun n => n == avoid || contracted n) target maxWeight witnessLimit
      (WitnessSearch.start start) [] (Nat.zero_add _)
  obtain rfl : verdict = .found := beq_iff_eq.1 (hanswer.symm.trans h)
  exact (Walked.start hopen).way_of_found hruns

end WitnessSearch

end RoadSplice

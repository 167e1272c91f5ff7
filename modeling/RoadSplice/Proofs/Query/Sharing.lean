/-
  RoadSplice.Proofs.Query.Sharing — several query graphs over one overlay.

  Each graph has a list of its own, but the marks lie in the overlay and belong to all.  What a
  graph answers and lists depends on the calls made on it and on no other; what it reports as
  unfavored depends on the calls of all graphs.  A mark stays until a graph that lists it takes back
  its marks, so a graph that has just been opened, with an empty list, may report marks that it
  cannot take back.
-/
import Mathlib.Logic.Function.Basic
import RoadSplice.Proofs.Query.Tracking

namespace RoadSplice

variable {K : Type} [Scalar K]

/-! ## §1. Graphs that share an overlay. -/

/-- **Query graphs over one overlay**, told apart by numbers.  A number that has not been used yet
is that of a graph still to be opened. -/
structure SharedGraphs (K : Type) where
  base : RoadGraph K
  overlay : Overlay K
  tracked : Nat → List Nat

namespace SharedGraphs

/-- One of the graphs. -/
def graph (s : SharedGraphs K) (k : Nat) : QueryGraph K := ⟨s.base, s.overlay, s.tracked k⟩

/-- A call on one of the graphs. -/
def call (s : SharedGraphs K) (k : Nat) (c : MarkCall K) : SharedGraphs K :=
  let q := c.after (s.graph k)
  ⟨q.base, q.overlay, Function.update s.tracked k q.tracked⟩

/-- No graph has marked anything yet. -/
def start (g : RoadGraph K) (o : Overlay K) : SharedGraphs K := ⟨g, o, fun _ => []⟩

/-- Calls on the graphs, in the order in which they are made. -/
def run (calls : List (Nat × MarkCall K)) (s : SharedGraphs K) : SharedGraphs K :=
  calls.foldl (fun s call => s.call call.1 call.2) s

theorem run_concat (calls : List (Nat × MarkCall K)) (k : Nat) (c : MarkCall K)
    (s : SharedGraphs K) : run (calls ++ [(k, c)]) s = (run calls s).call k c :=
  List.foldl_concat ..

/-- The calls made on one graph. -/
def ownCalls (k : Nat) (calls : List (Nat × MarkCall K)) : List (MarkCall K) :=
  calls.filterMap fun call => if call.1 = k then some call.2 else none

omit [Scalar K] in
theorem ownCalls_concat (k j : Nat) (calls : List (Nat × MarkCall K)) (c : MarkCall K) :
    ownCalls k (calls ++ [(j, c)]) = ownCalls k calls ++ if j = k then [c] else [] := by
  unfold ownCalls
  rw [List.filterMap_append]
  split <;> simp [*]

/-- **The graph as it would be alone** on the overlay, after the calls made on it. -/
def alone (g : RoadGraph K) (o : Overlay K) (k : Nat) (calls : List (Nat × MarkCall K)) :
    QueryGraph K :=
  MarkCall.afterAll (ownCalls k calls) (QueryGraph.ofOverlay g o)

theorem alone_concat_self (g : RoadGraph K) (o : Overlay K) (k : Nat)
    (calls : List (Nat × MarkCall K)) (c : MarkCall K) :
    alone g o k (calls ++ [(k, c)]) = c.after (alone g o k calls) := by
  unfold alone
  rw [ownCalls_concat, if_pos rfl, MarkCall.afterAll_concat]

theorem alone_concat_of_ne (g : RoadGraph K) (o : Overlay K) {k j : Nat} (hne : j ≠ k)
    (calls : List (Nat × MarkCall K)) (c : MarkCall K) :
    alone g o k (calls ++ [(j, c)]) = alone g o k calls := by
  unfold alone
  rw [ownCalls_concat, if_neg hne, List.append_nil]

/-- **A mark that is left**: some graph has set it, and since then no graph that listed it has taken
back its marks. -/
def MarkLeft (g : RoadGraph K) (o : Overlay K) (calls : List (Nat × MarkCall K)) (i : Nat) : Prop :=
  ∃ before k c since, calls = before ++ (k, c) :: since ∧ c.Marks g o i ∧
    ∀ pre j post, since = pre ++ (j, .clear) :: post →
      i ∉ (alone g o j (before ++ (k, c) :: pre)).tracked

variable {g : RoadGraph K} {o : Overlay K}

theorem not_markLeft_nil (i : Nat) : ¬ MarkLeft g o [] i := by
  rintro ⟨before, k, c, since, hcalls, -⟩
  simp at hcalls

/-- A list with one more entry, cut at some entry: at the last one or before it. -/
theorem concat_eq_append_cons {α : Type} {l before since : List α} {x y : α} :
    l ++ [x] = before ++ y :: since ↔
      (l = before ∧ x = y ∧ since = []) ∨
        ∃ rest, since = rest ++ [x] ∧ l = before ++ y :: rest := by
  constructor
  · intro h
    rcases List.eq_nil_or_concat' since with rfl | ⟨since, last, rfl⟩
    · obtain ⟨rfl, hlast⟩ := List.append_inj' h rfl
      exact .inl ⟨rfl, (List.cons.inj hlast).1, rfl⟩
    · rw [← List.cons_append, ← List.append_assoc] at h
      obtain ⟨rfl, hlast⟩ := List.append_inj' h rfl
      obtain rfl := (List.cons.inj hlast).1
      exact .inr ⟨since, rfl, rfl⟩
  · rintro (⟨rfl, rfl, rfl⟩ | ⟨since, rfl, rfl⟩)
    · rfl
    · simp

/-- **One more call** leaves a mark if it sets it, or does not take it back. -/
theorem markLeft_concat (calls : List (Nat × MarkCall K)) (j : Nat) (c : MarkCall K) (i : Nat) :
    MarkLeft g o (calls ++ [(j, c)]) i ↔
      c.Marks g o i ∨
        MarkLeft g o calls i ∧ ¬ (c = .clear ∧ i ∈ (alone g o j calls).tracked) := by
  constructor
  · rintro ⟨before, k, c', since, hcalls, hmarks, hkept⟩
    obtain ⟨-, heq, -⟩ | ⟨since, rfl, rfl⟩ := concat_eq_append_cons.1 hcalls
    · cases heq
      exact .inl hmarks
    · refine .inr ⟨⟨before, k, c', since, rfl, hmarks, fun pre j' post hsince => ?_⟩, ?_⟩
      · refine hkept pre j' (post ++ [(j, c)]) ?_
        rw [hsince, List.append_assoc, List.cons_append]
      · rintro ⟨rfl, htaken⟩
        exact hkept since j [] rfl htaken
  · rintro (hmarks | ⟨⟨before, k, c', since, rfl, hmarks, hkept⟩, hleft⟩)
    · refine ⟨calls, j, c, [], rfl, hmarks, fun pre j' post hsince => ?_⟩
      simp at hsince
    · refine ⟨before, k, c', since ++ [(j, c)], ?_, hmarks, fun pre j' post hsince => ?_⟩
      · rw [List.append_assoc, List.cons_append]
      · obtain ⟨rfl, heq, -⟩ | ⟨post, rfl, hcut⟩ := concat_eq_append_cons.1 hsince
        · -- The last call takes back marks.
          cases heq
          exact fun htaken => hleft ⟨rfl, htaken⟩
        · exact hkept pre j' post hcut

/-! ## §2. What the graphs share and what they do not. -/

open QueryGraph

/-- **The lists are those of graphs alone, and the marks those that are left.** -/
structure Explained (g : RoadGraph K) (o : Overlay K) (calls : List (Nat × MarkCall K))
    (m : Nat → Bool) (s : SharedGraphs K) : Prop where
  base : s.base = g
  overlay : s.overlay = o.withMarks m
  tracked : ∀ k, s.tracked k = (alone g o k calls).tracked
  marked : ∀ i, m i = true ↔ MarkLeft g o calls i

theorem explained_start (ho : o.Fresh) : Explained g o [] (fun _ => false) (start g o) where
  base := rfl
  overlay := ho.unmarked.symm
  tracked _ := rfl
  marked i := iff_of_false (by simp) (not_markLeft_nil i)

theorem Explained.graph_eq {calls : List (Nat × MarkCall K)} {m : Nat → Bool}
    {s : SharedGraphs K} (h : Explained g o calls m s) (k : Nat) :
    s.graph k = marking g o m (alone g o k calls).tracked := by
  unfold graph marking
  rw [h.base, h.overlay, h.tracked]

/-- **What a call lists**: what it marks, besides what has been listed before. -/
theorem mem_tracked_after (ho : o.Fresh) (c : MarkCall K) (m : Nat → Bool) (t : List Nat)
    (i : Nat) : i ∈ (c.after (marking g o m t)).tracked ↔ c.Marks g o i ∨ c ≠ .clear ∧ i ∈ t := by
  by_cases hc : c = .clear
  · subst hc
    rw [MarkCall.after_clear]
    simp [marking, MarkCall.not_marks_clear]
  · obtain ⟨a, P, heffect⟩ := MarkCall.exists_effect (g := g) ho.linked hc
    rw [heffect.after_eq, heffect.marks_iff ho]
    show i ∈ P.foldl track t ↔ _
    rw [mem_foldl_track]
    simp [hc, or_comm]

/-- What a call answers and lists does not depend on marks. -/
theorem answer_tracked_eq (ho : o.Fresh) (c : MarkCall K) (m m' : Nat → Bool) (t : List Nat) :
    c.answer (marking g o m t) = c.answer (marking g o m' t) ∧
      (c.after (marking g o m t)).tracked = (c.after (marking g o m' t)).tracked := by
  by_cases hc : c = .clear
  · subst hc
    exact ⟨rfl, rfl⟩
  · obtain ⟨a, P, heffect⟩ := MarkCall.exists_effect (g := g) ho.linked hc
    rw [heffect.answer_eq, heffect.answer_eq, heffect.after_eq, heffect.after_eq]
    exact ⟨rfl, rfl⟩

/-- The marks of a graph alone are those that it lists. -/
theorem alone_eq (ho : o.Fresh) (k : Nat) (calls : List (Nat × MarkCall K)) :
    alone g o k calls = marking g o (fun i => (alone g o k calls).tracked.contains i)
      (alone g o k calls).tracked := by
  obtain ⟨t, heq, -⟩ := (inStep_ofOverlay (g := g) ho).afterAll ho (ownCalls k calls)
  have htracked : (alone g o k calls).tracked = t := congrArg QueryGraph.tracked heq
  rw [htracked]
  exact heq

/-- **What a call does to the marks of all**: it sets its own, and takes back those listed. -/
theorem exists_after_marking (ho : o.Fresh) (c : MarkCall K) (m : Nat → Bool) (t : List Nat) :
    ∃ m', c.after (marking g o m t) = marking g o m' (c.after (marking g o m t)).tracked ∧
      ∀ i, m' i = true ↔ c.Marks g o i ∨ m i = true ∧ ¬ (c = .clear ∧ i ∈ t) := by
  by_cases hc : c = .clear
  · subst hc
    refine ⟨fun i => m i && !t.contains i, by rw [MarkCall.after_clear]; rfl, fun i => ?_⟩
    simp [MarkCall.not_marks_clear]
  · obtain ⟨a, P, heffect⟩ := MarkCall.exists_effect (g := g) ho.linked hc
    refine ⟨fun i => m i || P.contains i, by rw [heffect.after_eq]; rfl, fun i => ?_⟩
    rw [heffect.marks_iff ho]
    simp [hc, or_comm]

/-- **A call on one of the graphs** keeps lists and marks explained. -/
theorem Explained.call (ho : o.Fresh) {calls : List (Nat × MarkCall K)} {m : Nat → Bool}
    {s : SharedGraphs K} (h : Explained g o calls m s) (k : Nat) (c : MarkCall K) :
    ∃ m', Explained g o (calls ++ [(k, c)]) m' (s.call k c) := by
  obtain ⟨m', hafter, hmarked⟩ :=
    exists_after_marking (g := g) ho c m (alone g o k calls).tracked
  rw [← h.graph_eq k] at hafter
  refine ⟨m', congrArg QueryGraph.base hafter, congrArg QueryGraph.overlay hafter,
    fun j => ?tracked, fun i => ?marked⟩
  case tracked =>
    show Function.update s.tracked k (c.after (s.graph k)).tracked j = _
    by_cases hj : j = k
    · subst hj
      rw [Function.update_self, alone_concat_self, h.graph_eq]
      conv_rhs => rw [alone_eq ho]
      exact (answer_tracked_eq ho c _ _ _).2
    · rw [Function.update_of_ne hj, alone_concat_of_ne g o (Ne.symm hj)]
      exact h.tracked j
  case marked => rw [hmarked, markLeft_concat, h.marked]

/-- **Any calls on any of the graphs** leave lists and marks that are explained. -/
theorem exists_explained (ho : o.Fresh) (calls : List (Nat × MarkCall K)) :
    ∃ m, Explained g o calls m (run calls (start g o)) := by
  induction calls using List.reverseRecOn with
  | nil => exact ⟨_, explained_start ho⟩
  | append_singleton calls call ih =>
    obtain ⟨m, hm⟩ := ih
    rw [run_concat]
    exact hm.call ho call.1 call.2

/-! ## §3. Where no other graph interferes. -/

/-- What a graph lists, one of its calls has marked. -/
theorem exists_marks_of_listed (ho : o.Fresh) {k : Nat} {calls : List (Nat × MarkCall K)} {i : Nat}
    (hi : i ∈ (alone g o k calls).tracked) : ∃ c ∈ ownCalls k calls, c.Marks g o i := by
  induction calls using List.reverseRecOn with
  | nil => cases hi
  | append_singleton calls call ih =>
    obtain ⟨j, c⟩ := call
    rw [ownCalls_concat]
    by_cases hj : j = k
    · subst hj
      rw [alone_concat_self, alone_eq ho, mem_tracked_after ho] at hi
      rcases hi with hmarks | ⟨-, hi⟩
      · exact ⟨c, by simp, hmarks⟩
      · obtain ⟨c', hc', hmarks⟩ := ih hi
        exact ⟨c', List.mem_append_left _ hc', hmarks⟩
    · rw [alone_concat_of_ne g o hj] at hi
      obtain ⟨c', hc', hmarks⟩ := ih hi
      exact ⟨c', List.mem_append_left _ hc', hmarks⟩

/-- **A mark that no other graph sets** is left exactly when the graph lists it. -/
theorem markLeft_iff_listed (ho : o.Fresh) {k : Nat} {calls : List (Nat × MarkCall K)} {i : Nat}
    (hothers : ∀ j, j ≠ k → ∀ c ∈ ownCalls j calls, ¬ c.Marks g o i) :
    MarkLeft g o calls i ↔ i ∈ (alone g o k calls).tracked := by
  induction calls using List.reverseRecOn with
  | nil => exact iff_of_false (not_markLeft_nil i) (by intro h; cases h)
  | append_singleton calls call ih =>
    obtain ⟨j, c⟩ := call
    have hbefore : ∀ j', j' ≠ k → ∀ c' ∈ ownCalls j' calls, ¬ c'.Marks g o i := by
      intro j' hj' c' hc'
      refine hothers j' hj' c' ?_
      rw [ownCalls_concat]
      exact List.mem_append_left _ hc'
    rw [markLeft_concat, ih hbefore]
    by_cases hj : j = k
    · subst hj
      rw [alone_concat_self]
      conv_rhs => rw [alone_eq ho, mem_tracked_after ho]
      tauto
    · -- Another graph neither sets the mark nor has it in its list.
      have hmarks : ¬ c.Marks g o i := by
        refine hothers j hj c ?_
        rw [ownCalls_concat, if_pos rfl]
        exact List.mem_append_right _ (List.mem_singleton_self c)
      have hlisted : i ∉ (alone g o j calls).tracked := by
        intro hi
        obtain ⟨c', hc', hmarks'⟩ := exists_marks_of_listed ho hi
        exact hbefore j hj c' hc' hmarks'
      rw [alone_concat_of_ne g o hj]
      tauto

/-! ## §4. Pairs. -/

/-- A call marks both pieces of a pair or neither. -/
theorem marks_pair_iff (ho : o.Fresh) (c : MarkCall K) {i : Nat} {p : Piece K}
    (hp : o.piece? i = some p) : c.Marks g o p.pair ↔ c.Marks g o i := by
  by_cases hc : c = .clear
  · subst hc
    exact iff_of_false (MarkCall.not_marks_clear _) (MarkCall.not_marks_clear _)
  · obtain ⟨a, P, heffect⟩ := MarkCall.exists_effect (g := g) ho.linked hc
    rw [heffect.marks_iff ho, heffect.marks_iff ho]
    exact heffect.paired.mem_iff ho.linked hp

/-- A graph lists both pieces of a pair or neither. -/
theorem listed_pair_iff (ho : o.Fresh) (k : Nat) (calls : List (Nat × MarkCall K)) {i : Nat}
    {p : Piece K} (hp : o.piece? i = some p) :
    p.pair ∈ (alone g o k calls).tracked ↔ i ∈ (alone g o k calls).tracked := by
  obtain ⟨t, heq, -, hpaired⟩ := (inStep_ofOverlay (g := g) ho).afterAll ho (ownCalls k calls)
  have htracked : (alone g o k calls).tracked = t := congrArg QueryGraph.tracked heq
  rw [htracked]
  exact hpaired.mem_iff ho.linked hp

theorem markLeft_pair_iff (ho : o.Fresh) (calls : List (Nat × MarkCall K)) {i : Nat} {p : Piece K}
    (hp : o.piece? i = some p) : MarkLeft g o calls p.pair ↔ MarkLeft g o calls i := by
  induction calls using List.reverseRecOn with
  | nil => exact iff_of_false (not_markLeft_nil _) (not_markLeft_nil i)
  | append_singleton calls call ih =>
    obtain ⟨j, c⟩ := call
    rw [markLeft_concat, markLeft_concat, marks_pair_iff ho c hp, ih, listed_pair_iff ho j calls hp]

/-- **The two pieces of a pair are marked alike**, whatever calls are made. -/
theorem exists_paired_marks (ho : o.Fresh) (calls : List (Nat × MarkCall K)) :
    ∃ m : Nat → Bool, (run calls (start g o)).base = g ∧
      (run calls (start g o)).overlay = o.withMarks m ∧
      ∀ i p, o.piece? i = some p → m p.pair = m i := by
  obtain ⟨m, hm⟩ := exists_explained (g := g) ho calls
  refine ⟨m, hm.base, hm.overlay, fun i p hp => ?_⟩
  rw [Bool.eq_iff_iff, hm.marked, hm.marked]
  exact markLeft_pair_iff ho calls hp

end SharedGraphs

/-! ## §5. Any graphs over one overlay. -/

open SharedGraphs QueryGraph in
/-- **What a graph shares with the others.**  Whatever calls are made on several graphs over one
freshly built overlay, in whatever order: each graph answers and lists what it would alone.  A piece
reports a mark exactly when some graph has set it and no graph that listed it has taken back its
marks since.  So a piece that no other graph marks is shown as it would be to the graph alone, and
where no other graph marks anything, the graph is as it would be alone.  A graph that has just been
opened lists nothing, and shows the marks that the others have left. -/
theorem graphs_share_marks {g : RoadGraph K} {o : Overlay K} {snaps final : Array (Snap K)}
    (h : Overlay.build g snaps = (.ok o, final)) (calls : List (Nat × MarkCall K)) :
    let s := run calls (start g o)
    (∀ (k : Nat) (c : MarkCall K), (s.graph k).base = g ∧
        (s.graph k).tracked = (alone g o k calls).tracked ∧
        c.answer (s.graph k) = c.answer (alone g o k calls)) ∧
      (∀ k i v, (s.graph k).pieceView i = some v → (v.unfavored = true ↔ MarkLeft g o calls i)) ∧
      (∀ k i, (∀ j, j ≠ k → ∀ c ∈ ownCalls j calls, ¬ c.Marks g o i) →
        (s.graph k).pieceView i = (alone g o k calls).pieceView i) ∧
      (∀ k, (∀ j, j ≠ k → ∀ c ∈ ownCalls j calls, ∀ i, ¬ c.Marks g o i) →
        s.graph k = alone g o k calls) ∧
      ∀ k, ownCalls k calls = [] → s.graph k = QueryGraph.ofOverlay g s.overlay := by
  intro s
  have ho := Overlay.build_fresh h
  obtain ⟨m, hm⟩ := exists_explained (g := g) ho calls
  -- Each graph is the shared marks together with its own list.
  have hgraph := hm.graph_eq
  refine ⟨fun k c => ⟨hm.base, hm.tracked k, ?answers⟩, fun k i v hv => ?marks,
    fun k i hothers => ?piece, fun k hothers => ?graph, fun k hnone => ?opened⟩
  case answers =>
    rw [hgraph]
    conv_rhs => rw [alone_eq ho]
    exact (answer_tracked_eq ho c _ _ _).1
  case marks =>
    rw [hgraph] at hv
    obtain ⟨p, -, hmark⟩ := exists_piece_of_pieceView hv
    rw [hmark, hm.marked]
  case piece =>
    rw [hgraph]
    conv_rhs => rw [alone_eq ho]
    refine pieceView_congr ?_
    rw [Bool.eq_iff_iff, hm.marked, markLeft_iff_listed ho hothers, List.contains_iff_mem]
  case graph =>
    rw [hgraph]
    conv_rhs => rw [alone_eq ho]
    have hmarks : m = fun i => (alone g o k calls).tracked.contains i := by
      funext i
      rw [Bool.eq_iff_iff, hm.marked, List.contains_iff_mem]
      exact markLeft_iff_listed ho fun j hj c hc => hothers j hj c hc i
    rw [hmarks]
  case opened =>
    have hlist : (alone g o k calls).tracked = [] := by
      unfold alone
      rw [hnone]
      rfl
    unfold graph QueryGraph.ofOverlay
    rw [hm.base, hm.tracked, hlist]

open SharedGraphs QueryGraph in
/-- A mark that a first graph sets on a road that is cut twice is reported by a second one, on which
no call has been made. -/
theorem graphs_share_marks_cutRoad :
    ∃ o final, Overlay.build (Splicing.cutRoad 0) Splicing.cutSnaps = (.ok o, final) ∧
      let calls := [(0, MarkCall.edges [o.firstEdge])]
      let s := run calls (start (Splicing.cutRoad 0) o)
      s.graph 1 = ofOverlay (Splicing.cutRoad 0) s.overlay ∧
        ∃ i v, (s.graph 1).pieceView i = some v ∧ v.unfavored = true := by
  obtain ⟨o, final, hbuild, hspliced⟩ := Splicing.build_cutRoad 0
  have ho := Overlay.build_fresh hbuild
  obtain ⟨i, p, hi, hp⟩ :=
    exists_first_piece ho.linked (Splicing.nodeCount_levelChain 0 hspliced.laid).1
  obtain ⟨-, hmarks, -, -, hopened⟩ :=
    graphs_share_marks hbuild [(0, MarkCall.edges [o.firstEdge])]
  have hleft : MarkLeft (Splicing.cutRoad 0) o [(0, .edges [o.firstEdge])] i := by
    refine ⟨[], 0, .edges [o.firstEdge], [], rfl, ?_, fun pre j post hsince => ?_⟩
    · unfold MarkCall.Marks
      rw [tracked_after_edges ho hi hp]
      exact List.mem_cons_self
    · simp at hsince
  obtain ⟨m, hm⟩ := exists_explained (g := Splicing.cutRoad 0) ho [(0, .edges [o.firstEdge])]
  obtain ⟨v, hv, -⟩ := pieceView_marking (g := Splicing.cutRoad 0)
    (t := (alone (Splicing.cutRoad 0) o 1 [(0, .edges [o.firstEdge])]).tracked) m hp
  rw [← hm.graph_eq] at hv
  exact ⟨o, final, hbuild, hopened 1 rfl, i, v, hv, (hmarks 1 i v hv).2 hleft⟩

end RoadSplice

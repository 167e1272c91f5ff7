/-
  RoadSplice.Proofs.Hierarchy.Witness — what a search for a witness says, and why it is true.

  That there is no witness rests on the invariant of a search by weight, and the invariant on
  weights that are not negative: nodes are settled at the least weight of a way, and a way that
  is not settled to its end still has an entry in the frontier that weighs no more.  Taking an
  entry and reaching a node keep the invariant, hence so do settling a node and a whole run, and
  each way of ending says what is true of the ways to the target.

  A wave leaves out what has no finite cost; this search follows arcs of infinite weight too, so
  that its invariant is about weights of any size.
-/
import RoadSplice.Proofs.Hierarchy.WitnessRuns

namespace RoadSplice

namespace WitnessSearch

/-! ## §1. The invariant. -/

section Invariant

variable {arcs : NodeId → List (Arc Exact)} {blocked : NodeId → Bool} {source target : NodeId}

/-- A node has a label of at most some weight. -/
def Within (s : WitnessSearch Exact) (n : NodeId) (w : Exact) : Prop :=
  ∃ b, s.best[n]? = some b ∧ b ≤ w

/-- **What the labels and the frontier say**, when all that leaves from now on weighs at least
`floor`. -/
structure Ordered (arcs : NodeId → List (Arc Exact)) (blocked : NodeId → Bool) (source : NodeId)
    (s : WitnessSearch Exact) (floor : Exact) : Prop where
  walked : Walked arcs blocked source s
  root : Within s source 0
  /-- Entries weigh no less than what was settled, and no less than the label of their node. -/
  entry : ∀ e ∈ s.frontier, floor ≤ e.weight ∧ Within s e.node e.weight
  sorted : s.frontier.Sorted
  nodup : s.frontier.Nodup

/-- **What settling nodes does**: those settled have labels that will not change, the others
their entries. -/
structure Underway (arcs : NodeId → List (Arc Exact)) (blocked : NodeId → Bool) (source : NodeId)
    (s : WitnessSearch Exact) (done : List NodeId) (floor : Exact) : Prop
    extends Ordered arcs blocked source s floor where
  pending : ∀ n b, s.best[n]? = some b → n ∉ done → ⟨b, n⟩ ∈ s.frontier
  /-- Entries of settled nodes have been overtaken. -/
  left : ∀ n ∈ done, ∃ b, s.best[n]? = some b ∧ b ≤ floor ∧
    ∀ e ∈ s.frontier, e.node = n → b < e.weight
  done_nodup : done.Nodup

/-- The arcs of a settled node have been followed. -/
def Spread (arcs : NodeId → List (Arc Exact)) (blocked : NodeId → Bool)
    (s : WitnessSearch Exact) (n : NodeId) : Prop :=
  ∃ b, s.best[n]? = some b ∧
    ∀ a ∈ arcs n, blocked a.node = false → Within s a.node (b + a.weight)

/-- **The invariant of a search**: all arcs of the nodes settled so far have been followed, and
the target is not among them. -/
structure Searching (arcs : NodeId → List (Arc Exact)) (blocked : NodeId → Bool)
    (source target : NodeId) (s : WitnessSearch Exact) (done : List NodeId) : Prop where
  underway : ∃ floor, Underway arcs blocked source s done floor
  spread : ∀ n ∈ done, Spread arcs blocked s n
  target : target ∉ done

variable {s : WitnessSearch Exact} {done : List NodeId} {floor : Exact}
  {e : FrontierEntry Exact} {rest : Frontier Exact}

theorem Within.mono {n : NodeId} {w w' : Exact} (h : Within s n w) (hle : w ≤ w') :
    Within s n w' := by
  obtain ⟨b, hb, hbw⟩ := h
  exact ⟨b, hb, Exact.le_of_le_of_le hbw hle⟩

theorem underway_start (hopen : blocked source = false) :
    Underway arcs blocked source (start source) [] 0 where
  walked := .start hopen
  root := ⟨0, by simp [start], by simp⟩
  entry e he := by
    obtain rfl : e = ⟨0, source⟩ := List.mem_singleton.1 he
    exact ⟨by simp, 0, by simp [start], by simp⟩
  sorted := List.pairwise_singleton _ _
  nodup := List.nodup_singleton _
  pending n b hb _ := by
    obtain ⟨rfl, rfl⟩ | hb := getElem?_insert_cases hb
    · exact List.mem_singleton.2 rfl
    · simp at hb
  left n hn := absurd hn List.not_mem_nil
  done_nodup := List.nodup_nil

theorem searching_start (hopen : blocked source = false) :
    Searching arcs blocked source target (start source) [] where
  underway := ⟨0, underway_start hopen⟩
  spread _ hn := absurd hn List.not_mem_nil
  target := List.not_mem_nil

/-! ## §2. Taking an entry and reaching a node. -/

/-- The rest of the frontier weighs at least what its first entry does. -/
theorem Ordered.drop (h : Ordered arcs blocked source s floor) (hf : s.frontier = e :: rest) :
    Ordered arcs blocked source { s with frontier := rest } e.weight := by
  have hsorted : Frontier.Sorted (e :: rest) := hf ▸ h.sorted
  have hnodup : (e :: rest).Nodup := hf ▸ h.nodup
  exact {
    walked := h.walked.drop hf
    root := h.root
    entry := by
      intro e' he'
      have hmem : e' ∈ s.frontier := hf ▸ List.mem_cons_of_mem e he'
      exact ⟨(List.pairwise_cons.1 hsorted).1 e' he', (h.entry e' hmem).2⟩
    sorted := (List.pairwise_cons.1 hsorted).2
    nodup := (List.nodup_cons.1 hnodup).2 }

/-- Settled nodes stay settled when an entry is taken. -/
theorem Underway.left_drop (h : Underway arcs blocked source s done floor)
    (hf : s.frontier = e :: rest) : ∀ n ∈ done, ∃ b, s.best[n]? = some b ∧ b ≤ e.weight ∧
      ∀ e' ∈ rest, e'.node = n → b < e'.weight := by
  intro n hn
  obtain ⟨b, hb, hle, hover⟩ := h.left n hn
  have hfloor : floor ≤ e.weight := (h.entry e (hf ▸ List.mem_cons_self)).1
  refine ⟨b, hb, Exact.le_of_le_of_le hle hfloor, ?_⟩
  intro e' he'
  exact hover e' (hf ▸ List.mem_cons_of_mem e he')

/-- The entry of a label is the one taken, or is left. -/
theorem Underway.pending_drop (h : Underway arcs blocked source s done floor)
    (hf : s.frontier = e :: rest) {n : NodeId} {b : Exact} (hb : s.best[n]? = some b)
    (hn : n ∉ done) : ⟨b, n⟩ = e ∨ ⟨b, n⟩ ∈ rest := by
  have hmem : (⟨b, n⟩ : FrontierEntry Exact) ∈ e :: rest := hf ▸ h.pending n b hb hn
  exact List.mem_cons.1 hmem

/-- **Leaving out an entry that has been overtaken.** -/
theorem Underway.overtaken (h : Underway arcs blocked source s done floor)
    (hf : s.frontier = e :: rest) (hstale : (s.best[e.node]?).any (· < e.weight) = true) :
    Underway arcs blocked source { s with frontier := rest } done e.weight where
  toOrdered := h.toOrdered.drop hf
  pending n b hb hn := by
    obtain heq | hmem := h.pending_drop hf hb hn
    · -- The entry that is left out is not the one of the label.
      subst heq
      have hbest : s.best[n]? = some b := hb
      have hlt : b < b := by simpa [hbest] using hstale
      exact absurd hlt (Exact.not_lt_of_lt hlt)
    · exact hmem
  left := h.left_drop hf
  done_nodup := h.done_nodup

theorem Searching.overtaken (h : Searching arcs blocked source target s done)
    (hf : s.frontier = e :: rest) (hstale : (s.best[e.node]?).any (· < e.weight) = true) :
    Searching arcs blocked source target { s with frontier := rest } done where
  underway := by
    obtain ⟨floor, hunderway⟩ := h.underway
    exact ⟨e.weight, hunderway.overtaken hf hstale⟩
  spread := h.spread
  target := h.target

/-- Reaching a node at a smaller weight makes no label worse. -/
theorem Within.reach {n m : NodeId} {w r : Exact} (h : Within s n w)
    (hbetter : ∀ b, s.best[m]? = some b → r < b) : Within (s.reach m r) n w := by
  obtain ⟨b, hb, hbw⟩ := h
  by_cases hn : n = m
  · subst hn
    have hrb : r ≤ b := Exact.le_of_lt (hbetter b hb)
    exact ⟨r, best_reach_self s n r, Exact.le_of_le_of_le hrb hbw⟩
  · exact ⟨b, (best_reach_of_ne hn s r).trans hb, hbw⟩

/-- The label of a settled node is not improved. -/
theorem Underway.not_mem_of_better (h : Underway arcs blocked source s done floor) {n : NodeId}
    {w : Exact} (hfloor : floor ≤ w) (hbetter : ∀ b, s.best[n]? = some b → w < b) : n ∉ done := by
  intro hn
  obtain ⟨b, hb, hle, -⟩ := h.left n hn
  have hbw : b ≤ w := Exact.le_of_le_of_le hle hfloor
  exact Exact.not_lt_of_le hbw (hbetter b hb)

/-- **Reaching a node anew**, at a weight that improves its label. -/
theorem Underway.reach (h : Underway arcs blocked source s done floor) {n : NodeId} {w : Exact}
    (hway : Way arcs blocked source n w) (hfloor : floor ≤ w)
    (hbetter : ∀ b, s.best[n]? = some b → w < b) :
    Underway arcs blocked source (s.reach n w) done floor := by
  -- Labels of settled nodes are at most `floor`, so that the node is not among these.
  have hopen : n ∉ done := h.not_mem_of_better hfloor hbetter
  have hnan : w ≠ .nan := (Exact.ne_nan_of_le hfloor).2
  exact {
    walked := h.walked.reach hway
    root := h.root.reach hbetter
    entry := by
      intro e he
      obtain rfl | he := Frontier.mem_insert.1 he
      · exact ⟨hfloor, w, best_reach_self s n w, Exact.le_refl hnan⟩
      · exact ⟨(h.entry e he).1, (h.entry e he).2.reach hbetter⟩
    sorted := by
      apply h.sorted.insert hnan
      intro e he
      exact (Exact.ne_nan_of_le (h.entry e he).1).2
    nodup := by
      -- An entry of this weight would weigh less than the label of its node.
      have hfresh : (⟨w, n⟩ : FrontierEntry Exact) ∉ s.frontier := by
        intro hmem
        obtain ⟨b, hb, hle⟩ := (h.entry _ hmem).2
        exact Exact.not_lt_of_le hle (hbetter b hb)
      exact Frontier.nodup_insert h.nodup hfresh
    pending := by
      intro m b hb hm
      by_cases hmn : m = n
      · subst hmn
        obtain rfl := Option.some.inj ((best_reach_self s m w).symm.trans hb)
        exact Frontier.mem_insert.2 (.inl rfl)
      · rw [best_reach_of_ne hmn] at hb
        exact Frontier.mem_insert.2 (.inr (h.pending m b hb hm))
    left := by
      intro m hm
      have hmn : m ≠ n := fun heq => hopen (heq ▸ hm)
      obtain ⟨b, hb, hle, hover⟩ := h.left m hm
      refine ⟨b, (best_reach_of_ne hmn s w).trans hb, hle, ?_⟩
      intro e he hnode
      obtain rfl | he := Frontier.mem_insert.1 he
      · exact absurd hnode.symm hmn
      · exact hover e he hnode
    done_nodup := h.done_nodup }

/-- **What following some arcs does** from a node that is left at `floor`: settled nodes keep
their labels, no label becomes worse, and the ends of the arcs have labels as good as the arcs
offer. -/
structure Relaxed (arcs : NodeId → List (Arc Exact)) (blocked : NodeId → Bool) (source : NodeId)
    (done : List NodeId) (floor : Exact) (s : WitnessSearch Exact) (as : List (Arc Exact))
    (s' : WitnessSearch Exact) : Prop where
  underway : Underway arcs blocked source s' done floor
  frozen : ∀ n ∈ done, s'.best[n]? = s.best[n]?
  within : ∀ n w, Within s n w → Within s' n w
  offered : ∀ a ∈ as, blocked a.node = false → Within s' a.node (floor + a.weight)

/-- First some arcs, then some more. -/
theorem Relaxed.append {s' s'' : WitnessSearch Exact} {as bs : List (Arc Exact)}
    (h : Relaxed arcs blocked source done floor s as s')
    (h' : Relaxed arcs blocked source done floor s' bs s'') :
    Relaxed arcs blocked source done floor s (as ++ bs) s'' where
  underway := h'.underway
  frozen n hn := (h'.frozen n hn).trans (h.frozen n hn)
  within _ _ hw := h'.within _ _ (h.within _ _ hw)
  offered a ha hopen := by
    obtain ha | ha := List.mem_append.1 ha
    · exact h'.within _ _ (h.offered a ha hopen)
    · exact h'.offered a ha hopen

/-- A node with a label has been settled, or has an entry that weighs no more. -/
theorem Underway.settled_or_entry (h : Underway arcs blocked source s done floor) {n : NodeId}
    {w : Exact} (hn : Within s n w) : n ∈ done ∧ Within s n w ∨ ∃ e ∈ s.frontier, e.weight ≤ w := by
  by_cases hmem : n ∈ done
  · exact .inl ⟨hmem, hn⟩
  · obtain ⟨b, hb, hle⟩ := hn
    exact .inr ⟨⟨b, n⟩, h.pending n b hb hmem, hle⟩

/-! ## §3. Settling a node. -/

section Weights

variable (hweights : ∀ u, ∀ a ∈ arcs u, 0 ≤ a.weight)

include hweights

theorem Ordered.ne_nan (h : Ordered arcs blocked source s floor) {n : NodeId} {b : Exact}
    (hb : s.best[n]? = some b) : b ≠ .nan :=
  (Exact.ne_nan_of_le ((h.walked.label n b hb).zero_le hweights)).2

/-- The weight of a current entry is the label of its node. -/
theorem Ordered.label_of_current (h : Ordered arcs blocked source s floor)
    (hf : s.frontier = e :: rest) (hcurrent : ¬ (s.best[e.node]?).any (· < e.weight) = true) :
    s.best[e.node]? = some e.weight := by
  obtain ⟨b, hb, hle⟩ := (h.entry e (hf ▸ List.mem_cons_self)).2
  have hnlt : ¬ b < e.weight := by simpa [hb] using hcurrent
  have hnan : e.weight ≠ .nan := (Exact.ne_nan_of_le hle).2
  have hge : e.weight ≤ b := (Exact.not_lt_iff (h.ne_nan hweights hb) hnan).1 hnlt
  rw [hb, Exact.le_antisymm hle hge]

/-- **Settling the node of a current entry**, before its arcs are followed.  It has not been
settled before, and its other entries have been overtaken. -/
theorem Underway.leave (h : Underway arcs blocked source s done floor)
    (hf : s.frontier = e :: rest) (hcurrent : ¬ (s.best[e.node]?).any (· < e.weight) = true) :
    Underway arcs blocked source { s with frontier := rest } (done ++ [e.node]) e.weight := by
  have hlabel := h.label_of_current hweights hf hcurrent
  have hnan : e.weight ≠ .nan := h.ne_nan hweights hlabel
  have hfresh : e.node ∉ done := by
    intro hmem
    obtain ⟨b, hb, -, hover⟩ := h.left e.node hmem
    have hlt : b < e.weight := hover e (hf ▸ List.mem_cons_self) rfl
    rw [hb] at hcurrent
    exact hcurrent (by simpa using hlt)
  have hovertaken : ∀ e' ∈ rest, e'.node = e.node → e.weight < e'.weight := by
    intro e' he' hnode
    obtain ⟨b, hb, hle⟩ := (h.entry e' (hf ▸ List.mem_cons_of_mem e he')).2
    rw [hnode, hlabel] at hb
    obtain rfl := Option.some.inj hb
    by_contra hnlt
    have hge : e'.weight ≤ e.weight := (Exact.not_lt_iff hnan (Exact.ne_nan_of_le hle).2).1 hnlt
    -- Two entries of one node and one weight are the same, and no entry is there twice.
    have hsame : e' = e := by
      cases e
      cases e'
      cases hnode
      cases Exact.le_antisymm hge hle
      rfl
    have hnodup : (e :: rest).Nodup := hf ▸ h.nodup
    exact (List.nodup_cons.1 hnodup).1 (hsame ▸ he')
  exact {
    toOrdered := h.toOrdered.drop hf
    pending := by
      intro n b hb hn
      rw [List.mem_append, List.mem_singleton, not_or] at hn
      obtain heq | hmem := h.pending_drop hf hb hn.1
      · exact absurd (congrArg FrontierEntry.node heq) hn.2
      · exact hmem
    left := by
      intro n hn
      rw [List.mem_append, List.mem_singleton] at hn
      obtain hn | rfl := hn
      · exact h.left_drop hf n hn
      · exact ⟨e.weight, hlabel, Exact.le_refl hnan, hovertaken⟩
    done_nodup := by
      rw [← List.concat_eq_append]
      exact h.done_nodup.concat hfresh }

/-- **Following one arc.** -/
theorem Underway.relax (h : Underway arcs blocked source s done floor) {u : NodeId}
    (hway : Way arcs blocked source u floor) {a : Arc Exact} (ha : a ∈ arcs u) :
    Relaxed arcs blocked source done floor s [a] (relax blocked floor s a) := by
  have hfloor : floor ≤ floor + a.weight :=
    Exact.le_add_of_nonneg (hway.zero_le hweights) (hweights u a ha)
  obtain ⟨hsame, hwhy⟩ | ⟨hreach, hopen, hbetter⟩ := relax_cases blocked floor s a
  · -- Nothing changes: the node is blocked, or its label is good enough.
    rw [hsame]
    refine ⟨h, fun _ _ => rfl, fun _ _ hw => hw, ?_⟩
    intro a' ha' hopen
    obtain rfl := List.mem_singleton.1 ha'
    cases hwhy with
    | inl hblocked =>
      rw [hblocked] at hopen
      cases hopen
    | inr hlabel =>
      obtain ⟨b, hb, hnlt⟩ := hlabel
      have hle : b ≤ floor + a'.weight :=
        (Exact.not_lt_iff (Exact.ne_nan_of_le hfloor).2 (h.ne_nan hweights hb)).1 hnlt
      exact ⟨b, hb, hle⟩
  · -- The label becomes better, so the node has not been settled.
    rw [hreach]
    have hnew : a.node ∉ done := h.not_mem_of_better hfloor hbetter
    exact {
      underway := h.reach (.onward hway ha hopen) hfloor hbetter
      frozen := by
        intro n hn
        apply best_reach_of_ne
        intro heq
        exact hnew (heq ▸ hn)
      within := fun _ _ hw => hw.reach hbetter
      offered := by
        intro a' ha' _
        obtain rfl := List.mem_singleton.1 ha'
        have hnan : floor + a'.weight ≠ .nan := (Exact.ne_nan_of_le hfloor).2
        exact ⟨_, best_reach_self s _ _, Exact.le_refl hnan⟩ }

/-- **Following arcs of one node**, one after the other. -/
theorem Underway.relaxAll (h : Underway arcs blocked source s done floor) {u : NodeId}
    (hway : Way arcs blocked source u floor) {as : List (Arc Exact)} (has : as ⊆ arcs u) :
    Relaxed arcs blocked source done floor s as
      (as.foldl (WitnessSearch.relax blocked floor) s) := by
  induction as generalizing s with
  | nil => exact ⟨h, fun _ _ => rfl, fun _ _ hw => hw, fun a ha => absurd ha List.not_mem_nil⟩
  | cons a as ih =>
    obtain ⟨ha, has⟩ := List.cons_subset.1 has
    have hfirst := h.relax hweights hway ha
    exact hfirst.append (ih hfirst.underway has)

/-- **Settling a node** and following its arcs. -/
theorem Searching.settle (h : Searching arcs blocked source target s done)
    (hf : s.frontier = e :: rest) (htarget : e.node ≠ target)
    (hcurrent : ¬ (s.best[e.node]?).any (· < e.weight) = true) :
    Searching arcs blocked source target
      ((arcs e.node).foldl (relax blocked e.weight) { s with frontier := rest })
      (done ++ [e.node]) := by
  obtain ⟨floor, hunderway⟩ := h.underway
  -- The label of the node is final, so that its arcs are followed at the weight of a way.
  have hlabel := hunderway.label_of_current hweights hf hcurrent
  have hway : Way arcs blocked source e.node e.weight := hunderway.walked.label _ _ hlabel
  have hrelaxed := (hunderway.leave hweights hf hcurrent).relaxAll hweights hway
    (List.Subset.refl (arcs e.node))
  exact {
    underway := ⟨e.weight, hrelaxed.underway⟩
    spread := by
      intro n hn
      have hfrozen := hrelaxed.frozen n hn
      rw [List.mem_append, List.mem_singleton] at hn
      obtain hn | rfl := hn
      · obtain ⟨b, hb, harcs⟩ := h.spread n hn
        refine ⟨b, hfrozen.trans hb, ?_⟩
        intro a ha hopen
        exact hrelaxed.within _ _ (harcs a ha hopen)
      · exact ⟨e.weight, hfrozen.trans hlabel, hrelaxed.offered⟩
    target := by
      rw [List.mem_append, List.mem_singleton, not_or]
      exact ⟨h.target, fun heq => htarget heq.symm⟩ }

/-! ## §4. Verdicts. -/

/-- **A way is settled to its end**, at no more than it weighs, or there is an entry that weighs
no more. -/
theorem Searching.settled_or_entry (h : Searching arcs blocked source target s done) {n : NodeId}
    {w : Exact} (hway : Way arcs blocked source n w) :
    n ∈ done ∧ Within s n w ∨ ∃ e ∈ s.frontier, e.weight ≤ w := by
  obtain ⟨floor, hunderway⟩ := h.underway
  -- Along the way, the arcs of every node that is settled have been followed.
  induction hway with
  | here _ => exact hunderway.settled_or_entry hunderway.root
  | @onward u w a hway ha hopen ih =>
    have hw : 0 ≤ w := hway.zero_le hweights
    have ha0 : 0 ≤ a.weight := hweights u a ha
    cases ih with
    | inl hsettled =>
      obtain ⟨hu, b, hb, hle⟩ := hsettled
      obtain ⟨b', hb', harcs⟩ := h.spread u hu
      obtain rfl := Option.some.inj (hb'.symm.trans hb)
      have hb0 : 0 ≤ b' := (hunderway.walked.label u b' hb').zero_le hweights
      have hsum : b' + a.weight ≤ w + a.weight := Exact.add_le_add_of_nonneg hle hb0 ha0
      exact hunderway.settled_or_entry ((harcs a ha hopen).mono hsum)
    | inr hentry =>
      obtain ⟨e, he, hle⟩ := hentry
      have hsum : w ≤ w + a.weight := Exact.le_add_of_nonneg hw ha0
      exact .inr ⟨e, he, Exact.le_of_le_of_le hle hsum⟩

/-- With nothing left to take, the target cannot be reached at all. -/
theorem Searching.no_way_of_exhausted (h : Searching arcs blocked source target s done)
    (hf : s.frontier = []) {w : Exact} : ¬ Way arcs blocked source target w := by
  intro hway
  cases h.settled_or_entry hweights hway with
  | inl hsettled => exact h.target hsettled.1
  | inr hentry =>
    obtain ⟨e, he, -⟩ := hentry
    rw [hf] at he
    exact List.not_mem_nil he

/-- No way to the target weighs less than the next entry. -/
theorem Searching.next_le (h : Searching arcs blocked source target s done)
    (hf : s.frontier = e :: rest) {w : Exact} (hway : Way arcs blocked source target w) :
    e.weight ≤ w := by
  obtain ⟨floor, hunderway⟩ := h.underway
  cases h.settled_or_entry hweights hway with
  | inl hsettled => exact absurd hsettled.1 h.target
  | inr hentry =>
    obtain ⟨e', he', hle⟩ := hentry
    have hsorted : Frontier.Sorted (e :: rest) := hf ▸ hunderway.sorted
    rw [hf] at he'
    obtain rfl | he' := List.mem_cons.1 he'
    · exact hle
    · exact Exact.le_of_le_of_le ((List.pairwise_cons.1 hsorted).1 e' he') hle

/-- **Every verdict is true**, and no node has been settled twice. -/
theorem Searching.verdict_holds {maxWeight : Exact} (hmax : maxWeight ≠ .nan)
    (h : Searching arcs blocked source target s done) {settled : List NodeId} {turns : Nat}
    {verdict : Verdict}
    (hruns : Runs arcs blocked target maxWeight s done turns verdict settled) :
    verdict.Holds arcs blocked source target maxWeight settled ∧ settled.Nodup := by
  induction hruns with
  | exhausted hf =>
    obtain ⟨floor, hunderway⟩ := h.underway
    refine ⟨?_, hunderway.done_nodup⟩
    rintro ⟨w, hway, -⟩
    exact h.no_way_of_exhausted hweights hf hway
  | tooHeavy hf hheavy =>
    obtain ⟨floor, hunderway⟩ := h.underway
    refine ⟨?_, hunderway.done_nodup⟩
    rintro ⟨w, hway, hle⟩
    have hnext := h.next_le hweights hf hway
    exact Exact.not_lt_of_le (Exact.le_of_le_of_le hnext hle) hheavy
  | @found s done e rest hf hlight htarget =>
    obtain ⟨floor, hunderway⟩ := h.underway
    refine ⟨?_, hunderway.done_nodup⟩
    have he : e ∈ s.frontier := hf ▸ List.mem_cons_self
    have hnan : e.weight ≠ .nan := (Exact.ne_nan_of_le (hunderway.entry e he).1).2
    have hway := hunderway.walked.entry e he
    exact ⟨e.weight, htarget ▸ hway, (Exact.not_lt_iff hmax hnan).1 hlight⟩
  | stale hf _ _ hstale _ ih => exact ih (h.overtaken hf hstale)
  | gaveUp hf _ _ hcurrent hfull =>
    -- The node at which the search gives up is one more than may be settled.
    obtain ⟨floor, hunderway⟩ := h.underway
    refine ⟨?_, (hunderway.leave hweights hf hcurrent).done_nodup⟩
    show witnessLimit < (_ ++ [_]).length
    rw [List.length_append, List.length_singleton]
    omega
  | settle hf _ htarget hcurrent _ _ ih => exact ih (h.settle hweights hf htarget hcurrent)

end Weights

end Invariant

/-- **Searches for a witness never lie.**  Over arcs that weigh at least nothing, a search ends
after at most one turn more than there are arcs at the nodes it settles.  When it answers that
there is a witness, there is a way of no more than the weight allowed, none of whose nodes is
contracted or the one to avoid; when it answers that there is none, then there is no such way, or
it has settled more nodes than it may. -/
theorem witness_never_lies (arcs : Arcs Exact) (contracted : NodeId → Bool)
    (start target avoid : NodeId) (maxWeight : Exact)
    (hweights : ∀ u, ∀ a ∈ arcs.outOf u, 0 ≤ a.weight)
    (hstart : start ≠ avoid ∧ contracted start = false) (hmax : maxWeight ≠ .nan) :
    let blocked := fun n => n == avoid || contracted n
    let answer := hasWitness arcs contracted start target avoid maxWeight
    ∃ turns verdict settled,
      Runs arcs.outOf blocked target maxWeight (.start start) [] turns verdict settled ∧
      turns ≤ 1 + arcCount arcs.outOf settled ∧ settled.Nodup ∧ answer = (verdict == .found) ∧
      (answer = true → ∃ w, Way arcs.outOf blocked start target w ∧ w ≤ maxWeight) ∧
      (answer = false → (¬ ∃ w, Way arcs.outOf blocked start target w ∧ w ≤ maxWeight) ∨
        witnessLimit < settled.length) := by
  intro blocked answer
  have hopen : blocked start = false := by simp [blocked, hstart]
  obtain ⟨turns, verdict, settled, hruns, hanswer⟩ :=
    exists_runs arcs.outOf blocked target maxWeight witnessLimit (WitnessSearch.start start) []
      (Nat.zero_add _)
  have hturns := hruns.turns_le
  obtain ⟨hholds, hnodup⟩ := (searching_start hopen).verdict_holds hweights hmax hruns
  refine ⟨turns, verdict, settled, hruns, hturns, hnodup, hanswer, ?_, ?_⟩
  · intro htrue
    have hfound : verdict = .found := beq_iff_eq.1 (hanswer.symm.trans htrue)
    rw [hfound] at hholds
    exact hholds
  · intro hfalse
    have hother : verdict ≠ .found := beq_eq_false_iff_ne.1 (hanswer.symm.trans hfalse)
    cases verdict with
    | found => exact absurd rfl hother
    | tooHeavy => exact .inl hholds
    | exhausted => exact .inl hholds
    | gaveUp => exact .inr hholds

/-! ## §5. Two ways between two nodes. -/

/-- **Two ways from one node to another**, each over a node of its own, of two arcs each. -/
noncomputable def twoWays : Arcs Exact :=
  ((((Arcs.empty 4).add 0 2 0 (.real 1) Millis.zero (.real 1)).add 2 1 1 (.real 1) Millis.zero
    (.real 1)).add 0 3 2 (.real 1) Millis.zero (.real 1)).add 3 1 3 (.real 1) Millis.zero (.real 1)

/-- An arc of weight one. -/
noncomputable def unitArc (n : NodeId) (edge : EdgeId) : Arc Exact :=
  ⟨n, edge, .real 1, Millis.zero, .real 1⟩

theorem out_twoWays :
    twoWays.out = #[#[unitArc 2 0, unitArc 3 2], #[], #[unitArc 1 1], #[unitArc 1 3]] := rfl

theorem outOf_twoWays : twoWays.outOf 0 = [unitArc 2 0, unitArc 3 2] ∧
    twoWays.outOf 3 = [unitArc 1 3] := by
  unfold Arcs.outOf
  rw [out_twoWays]
  exact ⟨rfl, rfl⟩

theorem nonneg_twoWays (u : NodeId) (a : Arc Exact) (ha : a ∈ twoWays.outOf u) : 0 ≤ a.weight := by
  have hunit : ∀ b ∈ twoWays.out, ∀ a ∈ b, a.weight = .real 1 := by
    rw [out_twoWays]
    simp [unitArc]
  unfold Arcs.outOf at ha
  cases hu : twoWays.out[u]? with
  | none => simp [hu] at ha
  | some b =>
    rw [hu] at ha
    rw [hunit b (Array.mem_of_getElem? hu) a (by simpa using ha)]
    simp

/-- **Past the node to avoid** the search finds the other way. -/
theorem hasWitness_twoWays : hasWitness twoWays (fun _ => false) 0 1 2 (.real 2) = true := by
  -- The search settles the start and the node on the other way, and then meets the target.
  let s : WitnessSearch Exact :=
    ⟨(Std.TreeMap.empty.insert 0 (.real 0)).insert 3 (.real 1), [⟨.real 1, 3⟩]⟩
  let s' : WitnessSearch Exact := ⟨s.best.insert 1 (.real 2), [⟨.real 2, 1⟩]⟩
  have hlast : run twoWays.outOf (fun n => n == 2) 1 (.real 2) 62 s' = true := by
    rw [run]
    norm_num [s']
  have hnext : run twoWays.outOf (fun n => n == 2) 1 (.real 2) 63 s = true := by
    rw [show (63 : Nat) = 62 + 1 from rfl, run]
    norm_num [s, s', outOf_twoWays, unitArc, relax, Frontier.insert] at hlast ⊢
    exact hlast
  unfold hasWitness WitnessSearch.start
  rw [show witnessLimit = 63 + 1 from rfl, run]
  simpa [s, Frontier.start, outOf_twoWays, unitArc, relax, Frontier.insert] using hnext

/-- With the other node contracted, both arcs of the start lead to blocked nodes. -/
theorem blocked_twoWays : ∀ e ∈ (WitnessSearch.start 0 : WitnessSearch Exact).frontier,
    ∀ a ∈ twoWays.outOf e.node, (a.node == 2 || a.node == 3) = true := by
  intro e he
  obtain rfl : e = ⟨0, 0⟩ := List.mem_singleton.1 he
  rw [outOf_twoWays.1]
  simp [unitArc]

/-- **With the other node contracted** the search finds no way. -/
theorem no_hasWitness_twoWays : hasWitness twoWays (fun n => n == 3) 0 1 2 (.real 2) = false := by
  have hend : ∀ best, run twoWays.outOf (fun n => n == 2 || n == 3) 1 (.real 2) 63 ⟨best, []⟩ =
      false := fun best => by rw [run]
  unfold hasWitness
  rw [show witnessLimit = 63 + 1 from rfl, run]
  simp only [WitnessSearch.start, Frontier.start]
  rw [relaxAll_blocked _ _ _ (blocked_twoWays _ List.mem_cons_self), hend]
  simp

/-- Past one of the two nodes there is a way over the other one, and none once that one is contracted
as well. -/
theorem witness_never_lies_twoWays :
    ((∀ u, ∀ a ∈ twoWays.outOf u, 0 ≤ a.weight) ∧ (.real 2 : Exact) ≠ .nan ∧
        ((0 : NodeId) ≠ 2 ∧ false = false) ∧ (0 : NodeId) ≠ 2 ∧ ((0 : NodeId) == 3) = false) ∧
      (∃ w, Way twoWays.outOf (fun n => n == 2 || false) 0 1 w ∧ w ≤ .real 2) ∧
      ¬ ∃ w, Way twoWays.outOf (fun n => n == 2 || n == 3) 0 1 w ∧ w ≤ .real 2 := by
  have hstart : (0 : NodeId) ≠ 2 ∧ false = false := ⟨by decide, rfl⟩
  have hstart' : (0 : NodeId) ≠ 2 ∧ ((0 : NodeId) == 3) = false := by decide
  have hmax : (.real 2 : Exact) ≠ .nan := by
    intro heq
    cases heq
  obtain ⟨_, _, _, -, -, -, -, hsound, -⟩ :=
    witness_never_lies twoWays (fun _ => false) 0 1 2 (.real 2) nonneg_twoWays hstart hmax
  obtain ⟨_, _, settled, hruns, -, -, -, -, hnone⟩ :=
    witness_never_lies twoWays (fun n => n == 3) 0 1 2 (.real 2) nonneg_twoWays hstart' hmax
  refine ⟨⟨nonneg_twoWays, hmax, hstart, hstart'⟩, hsound hasWitness_twoWays,
    (hnone no_hasWitness_twoWays).resolve_right fun hlimit => ?_⟩
  -- The start is all that is settled.
  have hle : settled.length ≤ 0 + 1 := hruns.settled_le blocked_twoWays
  exact absurd (hlimit.trans_le hle) (by decide)

end WitnessSearch

end RoadSplice

/-
  RoadSplice.Proofs.Search.Progress — what a search by weight has found, and when it ends.

  One step of a search drops an overtaken entry or leaves a node; both keep `Progress`, the
  invariant of a whole search.  A search that follows it long enough knows every walk that costs
  less than its frontier, can be traced back from any label, and takes no more entries than
  there are links.
-/
import Mathlib.Algebra.Order.BigOperators.Group.List
import Mathlib.Data.List.Perm.Subperm
import RoadSplice.Proofs.Search.Wave
import Std.Data.TreeMap

namespace RoadSplice.Wave

variable {β : Type} {links : NodeId → List (Link β)} {source : NodeId} {w : Wave β}
  {done : List NodeId} {floor : ℝ}

/-! ## §1. Steps. -/

/-- **A search in progress**: the links of all settled nodes have been relaxed. -/
structure Progress (links : NodeId → List (Link β)) (source : NodeId) (w : Wave β)
    (done : List NodeId) (floor : ℝ) : Prop extends Settled links source w done floor where
  complete : ∀ n ∈ done, Relaxed (links n) w n

theorem progress_start (links : NodeId → List (Link β)) (source : NodeId) :
    Progress links source (start source) [] 0 :=
  ⟨settled_start links source, fun n hn => by simp at hn⟩

theorem Progress.dropEntry (h : Progress links source w done floor) {e : FrontierEntry Exact}
    {rest : Frontier Exact} (hf : w.frontier = e :: rest) {x y : ℝ} {t : Option β}
    (he : e.weight = .real y) (hx : w.label e.node = some (.real x, t)) (hxy : x < y) :
    Progress links source { w with frontier := rest } done floor :=
  ⟨h.drop hf he hx hxy, h.complete⟩

/-- **Leaving a node**: its entry is taken and all its links are relaxed. -/
theorem Progress.leave (h : Progress links source w done floor) (hlinks : Nonneg links)
    {e : FrontierEntry Exact} {rest : Frontier Exact} (hf : w.frontier = e :: rest) {y : ℝ}
    {t : Option β} (he : e.weight = .real y) (hx : w.label e.node = some (.real y, t))
    {w' : Wave β}
    (hw' : w' = (links e.node).foldl (relax (.real y)) { w with frontier := rest }) :
    Progress links source w' (done ++ [e.node]) y ∧ Improves (done ++ [e.node]) w w' ∧
      w'.frontier.length ≤ rest.length + (links e.node).length := by
  subst hw'
  obtain ⟨hsettled, hfloor⟩ := h.settle hf he hx
  obtain ⟨hafter, himp, hrel, hlen⟩ :=
    hsettled.relaxAll hlinks hfloor (List.Subset.refl (links e.node))
  refine ⟨⟨hafter, fun n hn => ?_⟩, ⟨himp.frozen, himp.better⟩, hlen⟩
  by_cases hnd : n ∈ done
  · exact Relaxed.improves (w := { w with frontier := rest }) (h.complete n hnd) himp hn
  · obtain rfl : n = e.node := by simpa [hnd] using hn
    exact hrel

/-! ## §2. Walks below the frontier. -/

/-- A walk from a settled node either leads to a settled node or leaves the settled nodes over
an entry of the frontier. -/
theorem Progress.reached_from (h : Progress links source w done floor) (hlinks : Nonneg links)
    {n m : NodeId} {c : ℝ} (hw : Walk (Follows links) n m c) {x : ℝ} {t : Option β}
    (hn : n ∈ done) (hx : w.label n = some (.real x, t)) :
    (m ∈ done ∧ ∃ y t', w.label m = some (.real y, t') ∧ y ≤ x + c) ∨
      ∃ e ∈ w.frontier, ∃ y, e.weight = .real y ∧ y ≤ x + c := by
  induction hw generalizing x t with
  | nil n => exact .inl ⟨hn, x, t, hx, by simp⟩
  | @cons n k m c c' hstep hrest ih =>
    obtain ⟨l, hl, rfl, hc⟩ := hstep
    obtain ⟨x', y, s, t', hx', hy, hle⟩ := h.complete n hn l hl c hc
    obtain ⟨rfl, -⟩ : x = x' ∧ t = s := by simpa [hx] using hx'
    have hc' : 0 ≤ c' := hlinks.walk hrest
    by_cases hk : l.node ∈ done
    · obtain ⟨hm, z, t'', hz, hle'⟩ | ⟨e, he, z, hz, hle'⟩ := ih hk hy
      · exact .inl ⟨hm, z, t'', hz, by linarith⟩
      · exact .inr ⟨e, he, z, hz, by linarith⟩
    · exact .inr ⟨_, h.pending hy hk, y, rfl, by linarith⟩

/-- **Every walk is known that costs less than the frontier.** -/
theorem Progress.reached (h : Progress links source w done floor) (hlinks : Nonneg links)
    {m : NodeId} {c : ℝ} (hw : Walk (Follows links) source m c) :
    (m ∈ done ∧ ∃ y t, w.label m = some (.real y, t) ∧ y ≤ c) ∨
      ∃ e ∈ w.frontier, ∃ y, e.weight = .real y ∧ y ≤ c := by
  by_cases hs : source ∈ done
  · simpa using h.reached_from hlinks hw hs h.root
  · exact .inr ⟨_, h.pending h.root hs, 0, rfl, hlinks.walk hw⟩

/-! ## §3. The way back. -/

/-- The links by which a node was reached, the last one first. -/
inductive Trail (links : NodeId → List (Link β)) (w : Wave β) (source : NodeId) :
    NodeId → List (Link β) → Prop
  | root : Trail links w source source []
  | step {p : NodeId} {steps : List (Link β)} {l : Link β} {b : Exact} {t : Option β} :
      Trail links w source p steps → l ∈ links p → w.label p = some (b, t) →
      w.label l.node = some (b + l.cost, some l.tag) → Trail links w source l.node (l :: steps)

/-- A settled node is traced back over nodes that were settled before it. -/
theorem Settled.exists_trail_of_done (h : Settled links source w done floor) {n : NodeId}
    (hn : n ∈ done) : ∃ steps, Trail links w source n steps ∧ steps.length ≤ done.idxOf n := by
  induction hk : done.idxOf n using Nat.strong_induction_on generalizing n with
  | _ k ih =>
    obtain ⟨x, t, hx, -⟩ := h.left n hn
    cases t with
    | none =>
      obtain rfl := h.only_root hx
      exact ⟨[], .root, Nat.zero_le _⟩
    | some tag =>
      obtain ⟨p, hp, hbefore, l, hl, rfl, rfl, b, t, hb, hsum⟩ := h.parent hx
      obtain ⟨steps, htrail, hlen⟩ := ih _ (hk ▸ hbefore hn) hp rfl
      refine ⟨l :: steps, .step htrail hl hb (hsum ▸ hx), ?_⟩
      have := hbefore hn
      rw [List.length_cons]
      omega

/-- **Every labelled node can be traced back**, in fewer steps than there are labelled nodes. -/
theorem Settled.exists_trail (h : Settled links source w done floor) {n : NodeId} {a : Exact}
    {t : Option β} (hn : w.label n = some (a, t)) :
    ∃ steps, Trail links w source n steps ∧
      ∃ known : List NodeId, known.Nodup ∧ (∀ m ∈ known, (w.label m).isSome) ∧
        steps.length < known.length := by
  have hdone : ∀ m ∈ done, (w.label m).isSome := fun m hm => by
    obtain ⟨x, t, hx, -⟩ := h.left m hm
    simp [hx]
  -- Parents are settled, also those of nodes that still wait in the frontier.
  by_cases hnd : n ∈ done
  · obtain ⟨steps, htrail, hlen⟩ := h.exists_trail_of_done hnd
    exact ⟨steps, htrail, done, h.done_nodup, hdone,
      hlen.trans_lt (List.idxOf_lt_length_of_mem hnd)⟩
  · have hknown : (n :: done).Nodup := List.nodup_cons.2 ⟨hnd, h.done_nodup⟩
    have hlabelled : ∀ m ∈ n :: done, (w.label m).isSome := by simpa [hn] using hdone
    cases t with
    | none =>
      obtain rfl := h.only_root hn
      exact ⟨[], .root, _, hknown, hlabelled, by simp⟩
    | some tag =>
      obtain ⟨p, hp, -, l, hl, rfl, rfl, b, t, hb, hsum⟩ := h.parent hn
      obtain ⟨steps, htrail, hlen⟩ := h.exists_trail_of_done hp
      refine ⟨l :: steps, .step htrail hl hb (hsum ▸ hn), _, hknown, hlabelled, ?_⟩
      have := List.idxOf_lt_length_of_mem hp
      simp only [List.length_cons]
      omega

/-- The label of a node is what the way back costs. -/
theorem Trail.label_eq (h : Settled links source w done floor) {n : NodeId}
    {steps : List (Link β)} (htrail : Trail links w source n steps) :
    ∃ t, w.label n = some (total (steps.map (·.cost)), t) := by
  induction htrail with
  | root => exact ⟨none, by simpa using h.root⟩
  | @step p steps l b t _ _ hb hl ih =>
    obtain ⟨t', ht'⟩ := ih
    obtain ⟨rfl, -⟩ : b = total (steps.map (·.cost)) ∧ t = t' := by simpa [hb] using ht'
    refine ⟨some l.tag, ?_⟩
    rw [hl, List.map_cons, Exact.total_cons, Exact.add_comm]

/-! ## §4. How long a search takes. -/

/-- The number of links of some nodes. -/
def degrees (links : NodeId → List (Link β)) (nodes : List NodeId) : Nat :=
  (nodes.map fun n => (links n).length).sum

theorem degrees_append (links : NodeId → List (Link β)) (ns : List NodeId) (n : NodeId) :
    degrees links (ns ++ [n]) = degrees links ns + (links n).length := by
  simp [degrees]

/-- Nodes that have links are counted once among all nodes. -/
theorem degrees_le_range {count : Nat} {ns : List NodeId} (hnodup : ns.Nodup)
    (h : ∀ n ∈ ns, n < count ∨ links n = []) :
    degrees links ns ≤ degrees links (List.range count) := by
  -- The others have no links, so they do not count.
  have hkept : degrees links ns = degrees links (ns.filter (· < count)) := by
    clear hnodup
    induction ns with
    | nil => rfl
    | cons n ns ih =>
      have hrest := ih fun m hm => h m (by simp [hm])
      unfold degrees at hrest ⊢
      rw [List.map_cons, List.sum_cons, hrest]
      by_cases hn : n < count
      · rw [List.filter_cons_of_pos (by simpa using hn), List.map_cons, List.sum_cons]
      · have hempty : links n = [] := (h n (by simp)).resolve_left hn
        rw [List.filter_cons_of_neg (by simpa using hn), hempty]
        exact Nat.zero_add _
  have hsub : ns.filter (· < count) ⊆ List.range count := fun n hn =>
    List.mem_range.2 (by simpa using (List.mem_filter.1 hn).2)
  obtain ⟨ms, hperm, hms⟩ := (hnodup.filter _).subperm hsub
  have hsum := (hperm.map fun n => (links n).length).sum_eq
  rw [hkept]
  unfold degrees
  rw [← hsum]
  exact (hms.map _).sum_le_sum fun _ _ => Nat.zero_le _

/-- Settled nodes are nodes of the graph, each counted once. -/
theorem Settled.degrees_le (h : Settled links source w done floor) {count : Nat}
    (hsource : source < count) (hnodes : ∀ n, ∀ l ∈ links n, l.node < count) :
    degrees links done ≤ degrees links (List.range count) := by
  refine degrees_le_range h.done_nodup fun n hn => .inl ?_
  obtain ⟨x, t, hx, -⟩ := h.left n hn
  obtain ⟨_, -, hw⟩ := h.walk hx
  exact hw.preserves (fun ⟨l, hl, heq, _⟩ _ => heq ▸ hnodes _ l hl) hsource

/-! ## §5. Labels kept in a map. -/

section Labels

variable {α : Type}

/-- The labels that a map holds. -/
def labelled (read : α → Exact × Option β) (labels : Std.TreeMap NodeId α) (n : NodeId) :
    Option (Exact × Option β) := (labels[n]?).map read

theorem labelled_insert (read : α → Exact × Option β) (labels : Std.TreeMap NodeId α) (n : NodeId)
    (a : α) :
    labelled read (labels.insert n a) = Function.update (labelled read labels) n (read a) := by
  funext m
  by_cases h : m = n
  · subst h
    simp [labelled]
  · rw [Function.update_of_ne h]
    have hnm : compare n m ≠ .eq := fun heq => h (Nat.compare_eq_eq.1 heq).symm
    simp [labelled, Std.TreeMap.getElem?_insert, hnm]

theorem labelled_start (read : α → Exact × Option β) (n : NodeId) (a : α)
    (hread : read a = (.real 0, none)) :
    labelled read (Std.TreeMap.empty.insert n a) = (start n : Wave β).label := by
  rw [labelled_insert, hread]
  rfl

/-- Labelled nodes are counted by the size of the map. -/
theorem length_le_size {read : α → Exact × Option β} {labels : Std.TreeMap NodeId α}
    {known : List NodeId} (hnodup : known.Nodup)
    (hknown : ∀ n ∈ known, (labelled read labels n).isSome) : known.length ≤ labels.size := by
  rw [← Std.TreeMap.length_keys]
  refine hnodup.length_le_of_subset fun n hn => ?_
  have := hknown n hn
  simpa [labelled] using this

end Labels

end RoadSplice.Wave

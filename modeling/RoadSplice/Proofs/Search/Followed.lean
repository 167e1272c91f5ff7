/-
  RoadSplice.Proofs.Search.Followed — the edges that a path follows.

  Whatever the weights are, negative ones and values that are no numbers included, a node is
  labelled over an edge that the node before it offers.  Labels are replaced but never taken away,
  so tracing back a label meets such edges only, and ends at the start.
-/
import RoadSplice.Proofs.Results
import RoadSplice.Proofs.Search.Walk
import RoadSplice.Search.Dijkstra

namespace RoadSplice

variable {K G : Type} [Scalar K] [Network G K] {g : G} {w : Weighting K} {s t : NodeId}

/-- **A path along edges** of a graph: they are offered where they begin, one after the other, and
the path names them and the nodes between them. -/
structure Path.Follows (g : G) (s t : NodeId) (p : Path K) (vs : List (EdgeView K)) : Prop where
  joined : Joined (·.base) (·.adj) s vs t
  offered : ∀ v ∈ vs, v ∈ Network.edges g v.base
  nodes : p.nodes = s :: vs.map (·.adj)
  edges : p.edges = vs.map (·.edge)

namespace Search

/-! ## §1. Labels. -/

/-- **Labels that were written over edges**: a label without a parent is that of the start, any
other names an edge that leads to its node and that its labelled parent offers. -/
structure Followed (g : G) (s : NodeId) (labels : Labels K) : Prop where
  root : ∀ (n : NodeId) l, labels[n]? = some l → l.parent = none → n = s
  parent : ∀ (n : NodeId) l m e, labels[n]? = some l → l.parent = some (m, e) →
    (labels[m]?).isSome = true ∧ ∃ v ∈ Network.edges g m, v.edge = e ∧ v.adj = n

theorem followed_start (g : G) (s : NodeId) : Followed g s (start s : Search K).labels := by
  have hlabel : ∀ (n : NodeId) l, (start s : Search K).labels[n]? = some l →
      n = s ∧ l.parent = none := by
    intro n l hl
    obtain ⟨rfl, rfl⟩ | hl := getElem?_insert_cases hl
    · exact ⟨rfl, rfl⟩
    · simp at hl
  refine ⟨fun n l hl _ => (hlabel n l hl).1, fun n l m e hl hp => ?_⟩
  rw [(hlabel n l hl).2] at hp
  cases hp

omit [Scalar K] in
/-- **A node is labelled anew** over an edge of a node that has a label. -/
theorem Followed.insert {labels : Labels K} (h : Followed g s labels) {m : NodeId}
    (hm : (labels[m]?).isSome = true) {v : EdgeView K} (hv : v ∈ Network.edges g m) (weight : K)
    (millis : Millis) :
    Followed g s (labels.insert v.adj ⟨weight, millis, some (m, v.edge)⟩) := by
  refine ⟨fun n l hl hp => ?_, fun n l p e hl hp => ?_⟩
  · obtain ⟨-, rfl⟩ | hl := getElem?_insert_cases hl
    · cases hp
    · exact h.root n l hl hp
  · obtain ⟨rfl, rfl⟩ | hl := getElem?_insert_cases hl
    · obtain ⟨rfl, rfl⟩ := Prod.mk.inj (Option.some.inj hp)
      exact ⟨isSome_insert hm _ _, v, hv, rfl, rfl⟩
    · obtain ⟨hlabel, hedge⟩ := h.parent n l p e hl hp
      exact ⟨isSome_insert hlabel _ _, hedge⟩

/-- Relaxing takes no label away. -/
theorem isSome_relax {e : FrontierEntry K} {l : Label K} {q : Search K} {v : EdgeView K}
    {n : NodeId} (hn : (q.labels[n]?).isSome = true) :
    ((relax w e l q v).labels[n]?).isSome = true := by
  unfold relax
  split
  · exact hn
  · dsimp only
    split
    · exact isSome_insert hn _ _
    · exact hn

theorem Followed.relax {e : FrontierEntry K} {l : Label K} {q : Search K}
    (h : Followed g s q.labels) (hlabel : (q.labels[e.node]?).isSome = true) {v : EdgeView K}
    (hv : v ∈ Network.edges g e.node) : Followed g s (relax w e l q v).labels := by
  unfold Search.relax
  split
  · exact h
  · dsimp only
    split
    · exact h.insert hlabel hv _ _
    · exact h

/-- **Leaving a node** relaxes edges that it offers. -/
theorem Followed.leave {e : FrontierEntry K} {l : Label K} {q : Search K}
    (h : Followed g s q.labels) (hlabel : (q.labels[e.node]?).isSome = true)
    {vs : List (EdgeView K)} (hvs : vs ⊆ Network.edges g e.node) :
    Followed g s (vs.foldl (Search.relax w e l) q).labels := by
  induction vs generalizing q with
  | nil => exact h
  | cons v vs ih =>
    obtain ⟨hv, htail⟩ := List.cons_subset.1 hvs
    exact ih (h.relax hlabel hv) (isSome_relax hlabel) htail

/-! ## §2. A whole search. -/

/-- **What every entry taken keeps** holds to the end of a run: when an entry is current and its
node is left, and when it has no label or has been overtaken and is dropped. -/
theorem run_induction {P : Search K → Prop}
    (hleave : ∀ q e rest l, P q → q.frontier = e :: rest → q.labels[e.node]? = some l →
      e.weight ≤ l.weight →
        P ((Network.edges g e.node).foldl (relax w e l) { q with frontier := rest }))
    (hdrop : ∀ q e rest, P q → q.frontier = e :: rest →
      (∀ l, q.labels[e.node]? = some l → ¬ e.weight ≤ l.weight) → P { q with frontier := rest })
    {fuel : Nat} {q : Search K} (hq : P q) {labels : Labels K}
    (hrun : run g w t fuel q = some labels) : ∃ q', q'.labels = labels ∧ P q' := by
  -- Induction on the fuel.  A run stops with the search at hand: when the frontier is empty, or
  -- when the target is left.
  induction fuel generalizing q with
  | zero =>
    rw [run] at hrun
    split at hrun
    · exact ⟨q, Option.some.inj hrun, hq⟩
    · cases hrun
  | succ fuel ih =>
    rw [run] at hrun
    split at hrun
    · exact ⟨q, Option.some.inj hrun, hq⟩
    · rename_i e rest hf
      cases hl : q.labels[e.node]? with
      | none =>
        simp only [hl] at hrun
        refine ih (hdrop q e rest hq hf fun l hl' => ?_) hrun
        rw [hl] at hl'
        cases hl'
      | some l =>
        simp only [hl] at hrun
        split at hrun
        · rename_i hcurrent
          split at hrun
          · exact ⟨q, Option.some.inj hrun, hq⟩
          · exact ih (hleave q e rest l hq hf hl hcurrent) hrun
        · rename_i hovertaken
          refine ih (hdrop q e rest hq hf fun l' hl' => ?_) hrun
          obtain rfl := Option.some.inj (hl.symm.trans hl')
          exact hovertaken

theorem Followed.run {fuel : Nat} {q : Search K} (h : Followed g s q.labels) {labels : Labels K}
    (hrun : Search.run g w t fuel q = some labels) : Followed g s labels := by
  obtain ⟨_, rfl, h'⟩ := run_induction (P := fun q => Followed g s q.labels)
    (fun _ _ rest _ hq _ hl _ =>
      hq.leave (q := ⟨_, rest⟩) (Option.isSome_of_mem hl) (List.Subset.refl _))
    (fun _ _ _ hq _ _ => hq) h hrun
  exact h'

omit [Scalar K] in
/-- **The way back** meets edges that are offered, and ends at the start. -/
theorem Followed.trace {labels : Labels K} (h : Followed g s labels)
    (hbase : ∀ n, ∀ v ∈ Network.edges g n, v.base = n) {fuel : Nat} {n : NodeId}
    (hn : (labels[n]?).isSome = true) {ns : List NodeId} {es : List EdgeId}
    {found : List NodeId × List EdgeId} (htrace : trace labels fuel n ns es = some found) :
    ∃ vs, Joined (·.base) (·.adj) s vs n ∧ (∀ v ∈ vs, v ∈ Network.edges g v.base) ∧
      found = (s :: (vs.map (·.adj) ++ ns), vs.map (·.edge) ++ es) := by
  -- Induction on the fuel: the parent of a label is labelled, and offers the edge.
  induction fuel generalizing n ns es with
  | zero => cases htrace
  | succ fuel ih =>
    obtain ⟨l, hl⟩ := Option.isSome_iff_exists.1 hn
    rw [Search.trace, hl, Option.bind_some] at htrace
    cases hp : l.parent with
    | none =>
      rw [hp] at htrace
      obtain rfl := h.root n l hl hp
      obtain rfl := Option.some.inj htrace
      exact ⟨[], rfl, fun v hv => absurd hv List.not_mem_nil, rfl⟩
    | some parent =>
      obtain ⟨m, e⟩ := parent
      rw [hp] at htrace
      obtain ⟨hm, v, hv, rfl, rfl⟩ := h.parent n l m e hl hp
      obtain ⟨vs, hjoined, hoffered, rfl⟩ := ih hm htrace
      have hbase := hbase m v hv
      refine ⟨vs ++ [v], hjoined.append ⟨hbase, rfl⟩, fun u hu => ?_, by simp⟩
      obtain hu | hu := List.mem_append.1 hu
      · exact hoffered u hu
      · obtain rfl := List.mem_singleton.1 hu
        rwa [hbase]

end Search

/-- **Every path follows edges** of the graph, whatever the weights are. -/
theorem exists_follows (hbase : ∀ n, ∀ v ∈ Network.edges g n, v.base = n) {p : Path K}
    (h : dijkstra g w s t = some p) : ∃ vs, p.Follows g s t vs := by
  unfold dijkstra at h
  by_cases hst : s = t
  · rw [if_pos hst] at h
    obtain rfl := Option.some.inj h
    exact ⟨[], hst, fun v hv => absurd hv List.not_mem_nil, rfl, rfl⟩
  · simp only [hst, if_false, Option.bind_eq_bind, Option.bind_eq_some_iff, Option.pure_def,
      Option.some.injEq, Prod.exists] at h
    obtain ⟨labels, hrun, l, hl, ns, es, htrace, d, -, rfl⟩ := h
    have hfollowed := (Search.followed_start g s).run hrun
    obtain ⟨vs, hjoined, hoffered, hfound⟩ := hfollowed.trace hbase (by rw [hl]; rfl) htrace
    obtain ⟨rfl, rfl⟩ := Prod.mk.inj hfound
    exact ⟨vs, hjoined, hoffered, by simp, by simp⟩

omit [Scalar K] in
/-- The last edge of a path leads to its target. -/
theorem Path.Follows.getLast {p : Path K} {vs : List (EdgeView K)} (h : p.Follows g s t vs)
    {e : EdgeId} (he : p.edges.getLast? = some e) :
    ∃ v, v ∈ Network.edges g v.base ∧ v.adj = t ∧ v.edge = e := by
  rcases List.eq_nil_or_concat vs with rfl | ⟨us, v, rfl⟩
  · rw [h.edges] at he
    cases he
  · rw [List.concat_eq_append] at h
    rw [h.edges, List.map_append, List.map_singleton, List.getLast?_concat] at he
    obtain ⟨m, -, hlast⟩ := h.joined.exists_of_append
    exact ⟨v, h.offered v (by simp), hlast.2, Option.some.inj he⟩

end RoadSplice

/-
  RoadSplice.Proofs.Search.Ending — searches that charge turns end.

  Every entry that is taken was put there by an edge of a node that has been settled, or it is the
  first one.  A node is settled once, so no more entries are ever taken than there are edges at
  nodes, and one more.  A labelled node is then traced back over nodes that were settled one before
  the other, which are no more than there are labels.
-/
import RoadSplice.Proofs.Search.Turns

namespace RoadSplice

open Wave

namespace Search

/-! ## §1. Entries. -/

section Entries

variable {K : Type} [Scalar K]

/-- An edge adds an entry at most. -/
theorem length_relax (w : Weighting K) (e : FrontierEntry K) (l : Label K) (s : Search K)
    (v : EdgeView K) : (relax w e l s v).frontier.length ≤ s.frontier.length + 1 := by
  unfold relax
  split
  · exact Nat.le_succ _
  · dsimp only
    split
    · exact Nat.le_of_eq (Frontier.length_insert _ _)
    · exact Nat.le_succ _

/-- The edges of a node add an entry each at most. -/
theorem length_relaxAll (w : Weighting K) (e : FrontierEntry K) (l : Label K) (s : Search K)
    (vs : List (EdgeView K)) :
    (vs.foldl (relax w e l) s).frontier.length ≤ s.frontier.length + vs.length := by
  induction vs generalizing s with
  | nil => exact Nat.le_refl _
  | cons v vs ih =>
    have hstep := length_relax w e l s v
    have hrest := ih (relax w e l s v)
    rw [List.foldl_cons, List.length_cons]
    omega

end Entries

/-! ## §2. Running. -/

variable {G : Type} [Network G Exact] {g : G} {w : Weighting Exact} {source target : NodeId}
  {s : Search Exact} {done : List NodeId} {floor : ℝ}

/-- **The search ends**, if there is fuel for the entries at hand and for the edges of all nodes
that are not settled. -/
theorem run_isSome (hg : Readable g) (hw : NonnegWeights g w) (hturns : NonnegTurns w)
    (hcosts : w.hasTurnCosts = true) {fuel : Nat}
    (hsettled : Settled (taken (turnLinks g w) (toTurnWave s) done) source (toTurnWave s) done floor)
    (hroot : RootAtZero s.labels)
    (hfuel : degrees (links g w) (List.range (Network.nodeCount g)) + s.frontier.length ≤
      fuel + degrees (links g w) done) :
    (run g w target fuel s).isSome = true := by
  induction fuel generalizing s done floor with
  | zero =>
    -- All nodes with edges are settled and every entry has been taken.
    have hall := degrees_le_range hsettled.done_nodup fun n _ => links_outside (w := w) hg n
    have hf : s.frontier = [] := List.length_eq_zero_iff.1 (by omega)
    rw [run, hf]
    rfl
  | succ fuel ih =>
    rw [run]
    cases hf : s.frontier with
    | nil => rfl
    | cons e rest =>
      obtain ⟨l, hl, hleft, hdropped⟩ := next_settled hsettled hroot hw hturns hcosts hf
      rw [hf, List.length_cons] at hfuel
      simp only [hl]
      by_cases hcurrent : e.weight ≤ l.weight
      · rw [if_pos hcurrent]
        by_cases ht : e.node = target
        · rw [if_pos ht]
          rfl
        · -- The edges of the node take the place of its entry.
          rw [if_neg ht]
          obtain ⟨hroot', floor', hsettled'⟩ := hleft hcurrent _ rfl
          refine ih hsettled' hroot' ?_
          have hlen := length_relaxAll w e l { s with frontier := rest } (Network.edges g e.node)
          have hlinks : (links g w e.node).length = (Network.edges g e.node).length :=
            List.length_map _
          rw [degrees_append, hlinks]
          simp only at hlen
          omega
      · -- The entry has been overtaken.
        rw [if_neg hcurrent]
        refine ih (hdropped hcurrent) hroot ?_
        simp only
        omega

/-! ## §3. The way back. -/

section Back

variable (hsettled : Settled (taken (turnLinks g w) (toTurnWave s) done) source (toTurnWave s)
  done floor) (hroot : RootAtZero s.labels) {n : NodeId} {l : Label Exact}
  (hl : s.labels[n]? = some l)

include hsettled hroot hl

/-- A settled node is traced back over nodes that were settled before it. -/
theorem trace_isSome_of_done (hn : n ∈ done) {fuel : Nat} (hfuel : done.idxOf n < fuel)
    (ns : List NodeId) (es : List EdgeId) : (trace s.labels fuel n ns es).isSome = true := by
  induction fuel generalizing n l ns es with
  | zero => exact absurd hfuel (Nat.not_lt_zero _)
  | succ fuel ih =>
    rw [trace, hl, Option.bind_some]
    cases hp : l.parent with
    | none => rfl
    | some parent =>
      obtain ⟨hpdone, hbefore, lp, hlp, -⟩ := label_of_parent hsettled hroot hl hp
      have := hbefore hn
      exact ih hlp hpdone (by omega) _ _

/-- **Every labelled node is traced back.** -/
theorem trace_isSome (ns : List NodeId) (es : List EdgeId) :
    (trace s.labels s.labels.size n ns es).isSome = true := by
  have hknown : ∀ m ∈ done, (labelled readArrival s.labels m).isSome = true := by
    intro m hm
    obtain ⟨x, t, hx, -⟩ := hsettled.left m hm
    exact Option.isSome_of_mem hx
  by_cases hn : n ∈ done
  · have hsize := length_le_size hsettled.done_nodup hknown
    have hidx := List.idxOf_lt_length_of_mem hn
    exact trace_isSome_of_done hsettled hroot hl hn (by omega) ns es
  · have hsize := length_le_size (List.nodup_cons.2 ⟨hn, hsettled.done_nodup⟩)
      (List.forall_mem_cons.2 ⟨by simp [labelled, hl], hknown⟩)
    obtain ⟨fuel, hfuel⟩ := Nat.exists_eq_add_one.2 (Nat.lt_of_lt_of_le (Nat.succ_pos _) hsize)
    rw [hfuel, trace, hl, Option.bind_some]
    cases hp : l.parent with
    | none => rfl
    | some parent =>
      obtain ⟨hpdone, -, lp, hlp, -⟩ := label_of_parent hsettled hroot hl hp
      have hidx := List.idxOf_lt_length_of_mem hpdone
      rw [List.length_cons] at hsize
      exact trace_isSome_of_done hsettled hroot hlp hpdone (by omega) _ _

end Back

/-! ## §4. Answers. -/

/-- **The search between two nodes ends**: it does so within its limit, and it answers with a path
if it has labelled its target. -/
def Ends (g : G) (w : Weighting Exact) (s t : NodeId) : Prop :=
  ∃ labels, run g w t (limit g) (start s) = some labels ∧
    ((labels[t]?).isSome = true → (dijkstra g w s t).isSome = true)

/-- **Searches end** where nothing weighs less than nothing, whether or not turns are charged. -/
theorem ends (hg : Readable g)
    (hfound : ∀ n, ∀ v ∈ Network.edges g n, Network.edge g v.edge (some v.adj) = .ok v)
    (hw : NonnegWeights g w) (hturns : NonnegTurns w) (s t : NodeId) : Ends g w s t := by
  cases hcosts : w.hasTurnCosts with
  | false =>
    obtain ⟨labels, hrun, frontier, done, floor, hsettled, -⟩ := run_start hg hw hcosts s t
    refine ⟨labels, hrun, fun hlabel => ?_⟩
    by_cases hst : s = t
    · rw [dijkstra, if_pos hst]
      rfl
    obtain ⟨hnone, hunreachable⟩ | ⟨p, vs, x, hp, -⟩ := dijkstra_cases hg hw hcosts hst
    · -- A label is the cost of a walk.
      obtain ⟨l, hl⟩ := Option.isSome_iff_exists.1 hlabel
      have hread : labelled readLabel labels t = some (l.weight, l.parent) := by
        simp [labelled, hl, readLabel]
      obtain ⟨x, -, hwalk⟩ := hsettled.walk hread
      exact absurd (hwalk.mono fun hstep => follows_links.1 hstep) (hunreachable x)
    · rw [hp]
      rfl
  | true =>
    have hstart := tracked_start g w s
    obtain ⟨labels, hrun⟩ := Option.isSome_iff_exists.1 <| show
        (run g w t (limit g) (start s)).isSome = true by
      obtain ⟨hsettled, hroot⟩ := settled_of_start g w s
      refine run_isSome hg hw hturns hcosts hsettled hroot ?_
      simpa [start, Frontier.start, degrees] using degrees_lt_limit (w := w) hg
    refine ⟨labels, hrun, fun hlabel => ?_⟩
    by_cases hst : s = t
    · rw [dijkstra, if_pos hst]
      rfl
    obtain ⟨l, hl⟩ := Option.isSome_iff_exists.1 hlabel
    obtain ⟨s', rfl, ⟨done, floor, hsettled⟩, hroot⟩ := hstart.run hw hturns hcosts hrun
    obtain ⟨⟨ns, es⟩, htrace⟩ :=
      Option.isSome_iff_exists.1 (trace_isSome hsettled hroot hl [] [])
    obtain ⟨vs, hcharged, heq, -⟩ :=
      charged_of_trace hsettled hroot hl hg.base_eq hcosts htrace
    obtain ⟨rfl, rfl⟩ : ns = s :: vs.map (·.adj) ∧ es = vs.map (·.edge) := by simpa using heq
    have hlength := Path.length?_eq fun v hv => hfound v.base v (hcharged.walk.2 v hv)
    rw [dijkstra_of_run hst hrun hl htrace hlength]
    rfl

end Search

end RoadSplice

/-
  RoadSplice.Proofs.Search.Dijkstra — the search from node to node finds shortest walks.

  Where turns are free, the search is a wave over the edges of the graph.  It ends within its
  limit, every label can be traced back, and the weight of the path is the least cost of a walk
  over edges of finite weight.
-/
import RoadSplice.Proofs.Search.Progress
import RoadSplice.Search.Dijkstra

namespace RoadSplice

open Wave

/-! ## §1. What the search asks of a graph. -/

section Reading

variable {G : Type} [Network G Exact]

/-- A graph whose lists of edges agree with what it says about single edges, and whose nodes, and
no others, offer edges that begin there. -/
structure Readable (g : G) : Prop where
  outside : ∀ n, Network.nodeCount g ≤ n → Network.edges g n = []
  base_eq : ∀ n, ∀ v ∈ Network.edges g n, v.base = n
  found : ∀ n, ∀ v ∈ Network.edges g n, ∃ v', Network.edge g v.edge (some v.adj) = .ok v'
  degree_le : ∀ n, (Network.edges g n).length ≤ Network.edgeCount g

/-- No edge has a negative weight. -/
def NonnegWeights (g : G) (w : Weighting Exact) : Prop :=
  ∀ {u v c}, EdgeStep g w u v c → 0 ≤ c

end Reading

namespace Search

variable {G : Type} [Network G Exact] {g : G} {w : Weighting Exact}

/-! ## §2. The search as a wave. -/

/-- What the wave keeps of a label. -/
def readLabel (l : Label Exact) : Exact × Option (NodeId × EdgeId) := (l.weight, l.parent)

/-- The wave of a search. -/
def toWave (s : Search Exact) : Wave (NodeId × EdgeId) := ⟨labelled readLabel s.labels, s.frontier⟩

/-- An edge as a link from a node. -/
def link (w : Weighting Exact) (node : NodeId) (v : EdgeView Exact) : Link (NodeId × EdgeId) :=
  ⟨v.adj, w.edgeWeight v false, (node, v.edge)⟩

/-- The edges of a graph as links. -/
def links (g : G) (w : Weighting Exact) (node : NodeId) : List (Link (NodeId × EdgeId)) :=
  (Network.edges g node).map (link w node)

theorem follows_links {u v : NodeId} {c : ℝ} :
    Follows (links g w) u v c ↔ EdgeStep g w u v c := by
  simp [Follows, links, link, EdgeStep]

theorem toWave_start (n : NodeId) : toWave (start n) = Wave.start n := by
  unfold toWave start Wave.start Frontier.start
  rw [labelled_start readLabel n _ (by simp [readLabel]), Exact.zero_eq]
  rfl

/-- **Relaxing an edge** is relaxing its link, where turns are free. -/
theorem toWave_relax (hturn : w.hasTurnCosts = false) (e : FrontierEntry Exact)
    (l : Label Exact) (s : Search Exact) (v : EdgeView Exact) :
    toWave (relax w e l s v) = Wave.relax e.weight (toWave s) (link w e.node v) := by
  -- Where turns are free it does not matter how the node was reached.
  have hcost : edgeCost w e.node (l.parent.map (·.2)) v =
      if Scalar.isFinite (w.edgeWeight v false)
      then some (w.edgeWeight v false, w.edgeMillis v false) else none := by
    simp only [edgeCost, hturn]
    cases hfin : Scalar.isFinite (w.edgeWeight v false) with
    | false => rfl
    | true => cases l.parent <;> rfl
  have himproves : improves s.labels v.adj (e.weight + w.edgeWeight v false) =
      ((toWave s).label v.adj).all (e.weight + w.edgeWeight v false < ·.1) := by
    show _ = Option.all _ ((s.labels[v.adj]?).map readLabel)
    unfold improves
    cases s.labels[v.adj]? <;> rfl
  unfold relax Wave.relax link
  rw [hcost]
  by_cases hfin : Scalar.isFinite (w.edgeWeight v false) = true
  · simp only [hfin, ↓reduceIte, true_and, himproves]
    split
    · unfold toWave improve
      simp only [labelled_insert]
      rfl
    · rfl
  · simp [hfin]

theorem toWave_leave (hturn : w.hasTurnCosts = false) (e : FrontierEntry Exact)
    (l : Label Exact) (s : Search Exact) :
    toWave ((Network.edges g e.node).foldl (relax w e l) s) =
      (links g w e.node).foldl (Wave.relax e.weight) (toWave s) := by
  unfold links
  rw [List.foldl_map]
  exact (List.foldl_hom toWave fun s v => (toWave_relax hturn e l s v).symm).symm

/-! ## §3. Running. -/

/-- Labels of a search, good enough for a target: no walk there costs less than its label. -/
def Found (g : G) (w : Weighting Exact) (source target : NodeId) (labels : Labels Exact) : Prop :=
  ∃ frontier done floor,
    Settled (links g w) source ⟨labelled readLabel labels, frontier⟩ done floor ∧
      ∀ c, Walk (EdgeStep g w) source target c →
        ∃ x t, labelled readLabel labels target = some (.real x, t) ∧ x ≤ c

variable {source target : NodeId} {s : Search Exact} {done : List NodeId} {floor : ℝ}

theorem nonneg_links (h : NonnegWeights g w) : Nonneg (links g w) := fun _ l hl _ hc =>
  h (follows_links.1 ⟨l, hl, rfl, hc⟩)

theorem found_of_empty (h : Progress (links g w) source (toWave s) done floor)
    (hw : NonnegWeights g w) (hf : s.frontier = []) : Found g w source target s.labels := by
  refine ⟨_, done, floor, h.toSettled, fun c hwalk => ?_⟩
  have hfollows := hwalk.mono fun hstep => follows_links.2 hstep
  obtain ⟨-, hlabel⟩ | ⟨e, he, -⟩ := h.reached (nonneg_links hw) hfollows
  · exact hlabel
  · simp [toWave, hf] at he

/-- The label with which an entry is current, and what it says of the entry. -/
theorem current_or_overtaken (h : Progress (links g w) source (toWave s) done floor)
    {e : FrontierEntry Exact} {rest : Frontier Exact} (hf : s.frontier = e :: rest) :
    ∃ l x y, s.labels[e.node]? = some l ∧ l.weight = .real x ∧ e.weight = .real y ∧ x ≤ y := by
  have hmem : e ∈ s.frontier := hf ▸ List.mem_cons_self
  obtain ⟨x, y, t, hy, -, hlabel, hle⟩ := h.entry e hmem
  obtain ⟨l, hl, hread⟩ := Option.map_eq_some_iff.1 hlabel
  exact ⟨l, x, y, hl, congrArg Prod.fst hread, hy, hle⟩

theorem found_of_target (h : Progress (links g w) source (toWave s) done floor)
    (hw : NonnegWeights g w) {e : FrontierEntry Exact} {rest : Frontier Exact}
    (hf : s.frontier = e :: rest) {l : Label Exact} {x : ℝ}
    (hl : s.labels[e.node]? = some l) (hx : l.weight = .real x) (he : e.weight = .real x) :
    Found g w source e.node s.labels := by
  refine ⟨_, done, floor, h.toSettled, fun c hwalk => ?_⟩
  have hlabel : (toWave s).label e.node = some (.real x, l.parent) := by
    simp [toWave, labelled, hl, readLabel, hx]
  refine ⟨x, l.parent, hlabel, ?_⟩
  have hfollows := hwalk.mono fun hstep => follows_links.2 hstep
  obtain ⟨-, y, t, hy, hle⟩ | ⟨a, ha, y, hy, hle⟩ := h.reached (nonneg_links hw) hfollows
  · obtain ⟨rfl, -⟩ : x = y ∧ l.parent = t := by simpa [hlabel] using hy
    exact hle
  · exact (h.head_le hf he ha hy).trans hle

/-- Only nodes of the graph have links. -/
theorem links_outside (hg : Readable g) (n : NodeId) :
    n < Network.nodeCount g ∨ links g w n = [] := by
  rcases Nat.lt_or_ge n (Network.nodeCount g) with hn | hn
  · exact .inl hn
  · refine .inr ?_
    rw [links, hg.outside n hn, List.map_nil]

/-- **The search ends** with labels good enough for its target, if there is fuel for the entries
at hand and for the links of all nodes that are not settled. -/
theorem run_found (hg : Readable g) (hw : NonnegWeights g w) (hturn : w.hasTurnCosts = false)
    (fuel : Nat)
    (h : Progress (links g w) source (toWave s) done floor)
    (hfuel : degrees (links g w) (List.range (Network.nodeCount g)) + s.frontier.length ≤
      fuel + degrees (links g w) done) :
    ∃ labels, run g w target fuel s = some labels ∧ Found g w source target labels := by
  induction fuel generalizing s done floor with
  | zero =>
    -- All links have been relaxed and every entry has been taken.
    have hall := degrees_le_range h.done_nodup fun n _ => links_outside (w := w) hg n
    have hf : s.frontier = [] := List.length_eq_zero_iff.1 (by omega)
    refine ⟨s.labels, ?_, found_of_empty h hw hf⟩
    rw [run, hf]
  | succ fuel ih =>
    rw [run]
    cases hf : s.frontier with
    | nil => exact ⟨s.labels, rfl, found_of_empty h hw hf⟩
    | cons e rest =>
      obtain ⟨l, x, y, hl, hx, he, hle⟩ := current_or_overtaken h hf
      have hlabel : (toWave s).label e.node = some (.real x, l.parent) := by
        simp [toWave, labelled, hl, readLabel, hx]
      rw [hf, List.length_cons] at hfuel
      simp only [hl, he, hx, Exact.real_le_real]
      by_cases hyx : y ≤ x
      · obtain rfl : x = y := le_antisymm hle hyx
        rw [if_pos le_rfl]
        by_cases ht : e.node = target
        · rw [if_pos ht]
          exact ⟨s.labels, rfl, ht ▸ found_of_target h hw hf hl hx he⟩
        · -- The links of the node take the place of its entry.
          rw [if_neg ht]
          have hleave := toWave_leave (g := g) hturn e l { s with frontier := rest }
          rw [he] at hleave
          obtain ⟨hnext, -, hlen⟩ := h.leave (nonneg_links hw) hf he hlabel hleave
          refine ih hnext ?_
          have hlen' : _ ≤ rest.length + (links g w e.node).length := hlen
          rw [degrees_append]
          simp only [toWave] at hlen'
          omega
      · -- The entry has been overtaken.
        rw [if_neg hyx]
        refine ih (h.dropEntry hf he hlabel (not_le.1 hyx)) ?_
        simp only
        omega

/-- The limit leaves room for every link once. -/
theorem degrees_lt_limit (hg : Readable g) :
    degrees (links g w) (List.range (Network.nodeCount g)) < limit g := by
  have hsum : degrees (links g w) (List.range (Network.nodeCount g)) ≤
      Network.nodeCount g * Network.edgeCount g := by
    have := List.sum_le_card_nsmul
      ((List.range (Network.nodeCount g)).map fun n => (links g w n).length)
      (Network.edgeCount g) (by simpa [links] using fun n _ => hg.degree_le n)
    simpa [degrees] using this
  have hpow : Network.nodeCount g < 2 ^ Network.nodeCount g := Nat.lt_two_pow_self
  unfold limit
  rw [Nat.pow_eq]
  nlinarith

/-- **The search from a node ends** within its limit. -/
theorem run_start (hg : Readable g) (hw : NonnegWeights g w) (hturn : w.hasTurnCosts = false)
    (s t : NodeId) :
    ∃ labels, run g w t (limit g) (start s) = some labels ∧ Found g w s t labels := by
  refine run_found hg hw hturn (limit g) (toWave_start s ▸ progress_start (links g w) s) ?_
  simpa [start, Frontier.start, degrees] using degrees_lt_limit hg

/-! ## §4. The way back. -/

theorem trace_of_trail {labels : Labels Exact} {frontier : Frontier Exact}
    (hroot : labelled readLabel labels source = some (.real 0, none)) {n : NodeId}
    {steps : List (Link (NodeId × EdgeId))}
    (h : Trail (links g w) ⟨labelled readLabel labels, frontier⟩ source n steps) {fuel : Nat}
    (hfuel : steps.length < fuel) (ns : List NodeId) (es : List EdgeId) :
    trace labels fuel n ns es =
      some (source :: (steps.reverse.map (·.node) ++ ns), steps.reverse.map (·.tag.2) ++ es) := by
  -- Induction along the trail: each of its steps is read off a parent.
  induction h generalizing fuel ns es with
  | root =>
    obtain ⟨fuel, rfl⟩ := Nat.exists_eq_add_one.2 hfuel
    obtain ⟨l, hl, hread⟩ := Option.map_eq_some_iff.1 hroot
    have hparent : l.parent = none := congrArg Prod.snd hread
    simp [trace, hl, hparent]
  | @step p steps l b t _ hmem _ hlabel ih =>
    obtain ⟨fuel, rfl⟩ := Nat.exists_eq_add_one.2 (Nat.zero_lt_of_lt hfuel)
    obtain ⟨lab, hlab, hread⟩ := Option.map_eq_some_iff.1 hlabel
    have hparent : lab.parent = some l.tag := congrArg Prod.snd hread
    obtain ⟨v, -, rfl⟩ := List.mem_map.1 hmem
    have hlen : steps.length < fuel := by simpa using hfuel
    have hstep : trace labels (fuel + 1) (link w p v).node ns es =
        trace labels fuel p ((link w p v).node :: ns) (v.edge :: es) := by
      simp only [trace, hlab, hparent, Option.bind_some]
      rfl
    rw [hstep, ih hlen]
    simp [link]

/-- **A way back is a walk of the graph**, read from its end. -/
theorem exists_isWalk_of_trail (hbase : ∀ n, ∀ v ∈ Network.edges g n, v.base = n)
    {wave : Wave (NodeId × EdgeId)} {n : NodeId} {steps : List (Link (NodeId × EdgeId))}
    (h : Trail (links g w) wave source n steps) :
    ∃ vs, IsWalk g source vs n ∧ steps.reverse = vs.map fun v => link w v.base v := by
  induction h with
  | root => exact ⟨[], ⟨rfl, by simp⟩, rfl⟩
  | @step p steps l b t _ hmem _ _ ih =>
    obtain ⟨vs, ⟨hjoined, hall⟩, hsteps⟩ := ih
    obtain ⟨v, hv, rfl⟩ := List.mem_map.1 hmem
    obtain rfl := hbase p v hv
    refine ⟨vs ++ [v], ⟨hjoined.append ⟨rfl, rfl⟩, fun u hu => ?_⟩, by simp [hsteps]⟩
    obtain hu | hu := List.mem_append.1 hu
    · exact hall u hu
    · exact List.mem_singleton.1 hu ▸ hv

end Search

/-- A way whose edges are all there has a length. -/
theorem Path.exists_length {G : Type} [Network G Exact] (g : G) {steps : List (EdgeId × NodeId)}
    (h : ∀ s ∈ steps, ∃ v, Network.edge g s.1 (some s.2) = .ok v) :
    ∃ d, Path.length? g steps = some d := by
  unfold Path.length?
  generalize (0 : Exact) = d
  induction steps generalizing d with
  | nil => exact ⟨d, rfl⟩
  | cons s steps ih =>
    obtain ⟨v, hv⟩ := h s (by simp)
    simpa [List.foldlM_cons, hv] using ih (fun s' hs' => h s' (by simp [hs'])) (d + v.distance)

/-! ## §5. Shortest paths. -/

section Shortest

variable {G : Type} [Network G Exact] {g : G} {w : Weighting Exact}

/-- What the search says of two different nodes: nothing where no walk of finite weight leads from
one to the other, and else a path along a walk than which none weighs less. -/
theorem dijkstra_cases (hg : Readable g) (hw : NonnegWeights g w) (hturn : w.hasTurnCosts = false)
    {s t : NodeId} (hst : s ≠ t) :
    (dijkstra g w s t = none ∧ ∀ x, ¬ Walk (EdgeStep g w) s t x) ∨
      ∃ p vs x, dijkstra g w s t = some p ∧ IsWalk g s vs t ∧ p.nodes = s :: vs.map (·.adj) ∧
        p.edges = vs.map (·.edge) ∧ p.weight = walkWeight w vs ∧ p.weight = .real x ∧
        ∀ y, Walk (EdgeStep g w) s t y → x ≤ y := by
  obtain ⟨labels, hrun, frontier, done, floor, hsettled, hleast⟩ :=
    Search.run_start hg hw hturn s t
  cases hlabel : labels[t]? with
  | none =>
    refine .inl ⟨by simp [dijkstra, hst, hrun, hlabel], fun x hx => ?_⟩
    obtain ⟨y, tag, hy, -⟩ := hleast x hx
    simp [labelled, hlabel] at hy
  | some l =>
    have hread : labelled Search.readLabel labels t = some (l.weight, l.parent) := by
      simp [labelled, hlabel, Search.readLabel]
    obtain ⟨x, hx, -⟩ := hsettled.walk hread
    obtain ⟨steps, htrail, known, hnodup, hknown, hlen⟩ := hsettled.exists_trail hread
    obtain ⟨vs, hvs, hsteps⟩ := Search.exists_isWalk_of_trail hg.base_eq htrail
    have htrace : Search.trace labels labels.size t [] [] =
        some (s :: vs.map (·.adj), vs.map (·.edge)) := by
      rw [Search.trace_of_trail hsettled.root htrail
        (hlen.trans_le (length_le_size hnodup hknown)), hsteps, List.map_map, List.map_map,
        List.append_nil, List.append_nil]
      rfl
    obtain ⟨d, hd⟩ : ∃ d, Path.length? g ((vs.map (·.edge)).zip (vs.map (·.adj))) = some d := by
      refine Path.exists_length g fun step hstep => ?_
      rw [List.zip_map'] at hstep
      obtain ⟨v, hv, rfl⟩ := List.mem_map.1 hstep
      exact hg.found v.base v (hvs.2 v hv)
    have hpath : dijkstra g w s t =
        some ⟨s :: vs.map (·.adj), vs.map (·.edge), l.weight, d, l.millis⟩ := by
      simp [dijkstra, hst, hrun, hlabel, htrace, hd]
    -- The label is what the way back costs, whichever way it is added up.
    have hweight : l.weight = walkWeight w vs := by
      obtain ⟨tag, htotal⟩ := htrail.label_eq hsettled
      have hsum : l.weight = total (steps.map (·.cost)) := by
        simpa using congrArg (Option.map Prod.fst) (hread.symm.trans htotal)
      rw [hsum, ← Exact.total_reverse, ← List.map_reverse, hsteps, List.map_map]
      rfl
    refine .inr ⟨_, vs, x, hpath, hvs, rfl, rfl, hweight, hx, fun y hy => ?_⟩
    obtain ⟨x', tag, hx', hle⟩ := hleast y hy
    obtain ⟨rfl, -⟩ : x = x' ∧ l.parent = tag := by simpa [hread, hx] using hx'
    exact hle

/-- **The search finds shortest paths**, and one exactly where a walk of finite weight leads to the
target. -/
theorem dijkstra_shortestPath (hg : Readable g) (hw : NonnegWeights g w)
    (hturn : w.hasTurnCosts = false) (s t : NodeId) :
    ((dijkstra g w s t).isSome = true ↔ Reachable g w s t) ∧
      ∀ p, dijkstra g w s t = some p → ShortestPath g w s t p := by
  by_cases hst : s = t
  · -- Staying costs nothing, and no walk costs less.
    subst hst
    have hpath : dijkstra g w s s = some (Path.single s) := by simp [dijkstra]
    have hreach : Reachable g w s s := ⟨[], ⟨rfl, by simp⟩, 0, by simp [walkWeight]⟩
    refine ⟨by simp [hpath, hreach], fun p hp => ?_⟩
    obtain rfl := Option.some.inj (hpath.symm.trans hp)
    refine ⟨⟨[], ⟨rfl, by simp⟩, rfl, rfl, by simp [Path.single, walkWeight]⟩,
      ⟨0, Exact.zero_eq⟩, ?_⟩
    rintro us hus ⟨y, hy⟩
    rw [hy, Path.single, Exact.zero_eq, Exact.real_le_real]
    exact ((walk_iff_isWalk hg.base_eq).2 ⟨us, hus, hy⟩).nonneg hw
  · obtain ⟨hpath, hnone⟩ | ⟨p, vs, x, hpath, hvs, hnodes, hedges, hweight, hx, hleast⟩ :=
      dijkstra_cases hg hw hturn hst
    · refine ⟨iff_of_false (by simp [hpath]) ?_, fun p hp => by simp [hpath] at hp⟩
      rintro ⟨us, hus, y, hy⟩
      exact hnone y ((walk_iff_isWalk hg.base_eq).2 ⟨us, hus, hy⟩)
    · refine ⟨iff_of_true (by simp [hpath]) ⟨vs, hvs, x, hweight.symm.trans hx⟩, fun p' hp' => ?_⟩
      obtain rfl := Option.some.inj (hpath.symm.trans hp')
      refine ⟨⟨vs, hvs, hnodes, hedges, hweight⟩, ⟨x, hx⟩, ?_⟩
      rintro us hus ⟨y, hy⟩
      rw [hx, hy]
      exact hleast y ((walk_iff_isWalk hg.base_eq).2 ⟨us, hus, hy⟩)

/-- **Along an open edge there is a path.** -/
theorem exists_path_of_step (hg : Readable g) (hw : NonnegWeights g w)
    (hturn : w.hasTurnCosts = false) {s t : NodeId} {x : ℝ} (hstep : EdgeStep g w s t x) :
    ∃ p, dijkstra g w s t = some p :=
  Option.isSome_iff_exists.1 ((dijkstra_shortestPath hg hw hturn s t).1.2
    ((reachable_iff hg.base_eq).2 ⟨x, .single hstep⟩))

/-- **What paths weigh**: as little as a walk over edges of finite weight can. -/
theorem dijkstra_shortest_walk (hg : Readable g) (hw : NonnegWeights g w)
    (hturn : w.hasTurnCosts = false) (s t : NodeId) :
    Shortest (EdgeStep g w) s t ((dijkstra g w s t).map (·.weight)) := by
  obtain ⟨hsome, hshortest⟩ := dijkstra_shortestPath hg hw hturn s t
  cases hpath : dijkstra g w s t with
  | none =>
    intro x hx
    obtain ⟨vs, hvs, hsum⟩ := (walk_iff_isWalk hg.base_eq).1 hx
    have hfound := hsome.2 ⟨vs, hvs, x, hsum⟩
    simp [hpath] at hfound
  | some p =>
    obtain ⟨⟨vs, hvs, -, -, hweight⟩, ⟨x, hx⟩, hleast⟩ := hshortest p hpath
    refine ⟨x, hx, (walk_iff_isWalk hg.base_eq).2 ⟨vs, hvs, hweight.symm.trans hx⟩, fun y hy => ?_⟩
    obtain ⟨us, hus, hsum⟩ := (walk_iff_isWalk hg.base_eq).1 hy
    have hle := hleast us hus ⟨y, hsum⟩
    rwa [hx, hsum] at hle

end Shortest

end RoadSplice

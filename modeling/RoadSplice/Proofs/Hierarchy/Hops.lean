/-
  RoadSplice.Proofs.Hierarchy.Hops — where the route on a hierarchy leads.

  Whatever the weights are, negative ones and values that are no numbers included, each side of the
  search labels a node over an edge that it was offered, and traces its labels back to where it began.
  Unpacking an edge keeps its ends, if the two edges that a shortcut skips meet between its own.  So
  a route is a row of hops from the source to the target.
-/
import RoadSplice.Proofs.Hierarchy.Meeting
import RoadSplice.Proofs.Overlay.Link

namespace RoadSplice

variable {K : Type} {R : Hop → Prop} {S : HierarchyEdge K → Prop} {s t : NodeId}

/-! ## §1. Unpacking. -/

/-- The step over an edge of a hierarchy. -/
def hopOf (e : HierarchyEdge K) : Hop := ⟨e.base, e.adj, e.underlying.getD 0⟩

/-- An edge between two nodes, in one direction or the other. -/
def HierarchyEdge.Between (e : HierarchyEdge K) (u v : NodeId) : Prop :=
  (e.base = u ∧ e.adj = v) ∨ (e.base = v ∧ e.adj = u)

/-- **Turned so that it leaves one of its ends**, an edge leads to the other one. -/
theorem HierarchyEdge.Between.leavingFrom {e : HierarchyEdge K} {u v : NodeId}
    (h : e.Between u v) : (RoutingHierarchy.leavingFrom e u).base = u ∧
      (RoutingHierarchy.leavingFrom e u).adj = v := by
  unfold RoutingHierarchy.leavingFrom
  split
  · rename_i hbase
    obtain hends | ⟨hv, hu⟩ := h
    · exact hends
    · exact ⟨hbase, hu.trans (hbase.symm.trans hv)⟩
  · rename_i hbase
    obtain ⟨hu, -⟩ | ⟨hv, hu⟩ := h
    · exact absurd hu hbase
    · exact ⟨hu, hv⟩

namespace RoutingHierarchy

variable {h : RoutingHierarchy K}

/-- **Edges that stand for hops**: in each direction, an edge that is no shortcut is a hop, and the
two edges that a shortcut skips meet at a node between its own. -/
structure StandsFor (h : RoutingHierarchy K) (R : Hop → Prop) (S : HierarchyEdge K → Prop) :
    Prop where
  reversed : ∀ e, S e → S e.reversed
  hop : ∀ e, S e → e.skipped = none → e.underlying.isSome = true ∧ R (hopOf e)
  skips : ∀ e a b f f', S e → e.skipped = some (a, b) → h.edge a none = .ok f →
    h.edge b none = .ok f' → S f ∧ S f' ∧ ∃ m, f.Between e.base m ∧ f'.Between m e.adj

theorem StandsFor.leavingFrom (hs : h.StandsFor R S) {e : HierarchyEdge K} (he : S e)
    (n : NodeId) : S (leavingFrom e n) := by
  unfold RoutingHierarchy.leavingFrom
  split
  · exact he
  · exact hs.reversed e he

/-- A row of hops between two nodes. -/
structure Row (R : Hop → Prop) (s : NodeId) (parts : List (HierarchyEdge K)) (t : NodeId) :
    Prop where
  joined : Joined (·.base) (·.adj) s parts t
  hops : ∀ p ∈ parts, p.underlying.isSome = true ∧ R (hopOf p)

theorem Row.append {m : NodeId} {ps qs : List (HierarchyEdge K)} (hp : Row R s ps m)
    (hq : Row R m qs t) : Row R s (ps ++ qs) t :=
  ⟨hp.joined.append hq.joined, fun p hmem => (List.mem_append.1 hmem).elim (hp.hops p) (hq.hops p)⟩

/-- **Unpacking an edge** that stands for hops gives a row of them between its ends. -/
theorem StandsFor.unpack (hs : h.StandsFor R S) {fuel : Nat} {e : HierarchyEdge K} (he : S e)
    {parts : List (HierarchyEdge K)} (hparts : h.unpack fuel e = .ok parts) :
    Row R e.base parts e.adj := by
  induction fuel generalizing e parts with
  | zero =>
    unfold RoutingHierarchy.unpack at hparts
    cases hskipped : e.skipped with
    | none =>
      obtain rfl : [e] = parts := by simpa [hskipped] using hparts
      exact ⟨⟨rfl, rfl⟩, fun p hp => List.mem_singleton.1 hp ▸ hs.hop e he hskipped⟩
    | some skipped => simp [hskipped] at hparts
  | succ fuel ih =>
    unfold RoutingHierarchy.unpack at hparts
    cases hskipped : e.skipped with
    | none =>
      obtain rfl : [e] = parts := by simpa [hskipped] using hparts
      exact ⟨⟨rfl, rfl⟩, fun p hp => List.mem_singleton.1 hp ▸ hs.hop e he hskipped⟩
    | some skipped =>
      obtain ⟨a, b⟩ := skipped
      simp only [hskipped] at hparts
      obtain ⟨f, hf, hparts⟩ := except_bind.1 hparts
      obtain ⟨f', hf', hparts⟩ := except_bind.1 hparts
      obtain ⟨ps, hps, hparts⟩ := except_bind.1 hparts
      obtain ⟨ps', hps', hparts⟩ := except_bind.1 hparts
      obtain rfl := Except.ok.inj hparts
      -- Both are turned so that they lead over the node where they meet.
      obtain ⟨hS, hS', m, hbetween, hbetween'⟩ := hs.skips e a b f f' he hskipped hf hf'
      obtain ⟨hbase, hadj⟩ := hbetween.leavingFrom
      rw [hadj] at hps'
      obtain ⟨hbase', hadj'⟩ := hbetween'.leavingFrom
      have hrow := ih (hs.leavingFrom hS _) hps
      have hrow' := ih (hs.leavingFrom hS' _) hps'
      rw [hbase, hadj] at hrow
      rw [hbase', hadj'] at hrow'
      exact hrow.append hrow'

/-- **Unpacking edges in a row** gives a row of hops. -/
theorem StandsFor.mapM_unpack (hs : h.StandsFor R S) {fuel : HierarchyEdge K → Nat}
    {es : List (HierarchyEdge K)} (hjoined : Joined (·.base) (·.adj) s es t) (hes : ∀ e ∈ es, S e)
    {parts : List (List (HierarchyEdge K))}
    (hparts : es.mapM (fun e => h.unpack (fuel e) e) = .ok parts) : Row R s parts.flatten t := by
  induction es generalizing s parts with
  | nil =>
    obtain rfl := Except.ok.inj hparts
    exact ⟨hjoined, fun p hp => by cases hp⟩
  | cons e es ih =>
    obtain ⟨rfl, hjoined⟩ := hjoined
    rw [List.mapM_cons] at hparts
    obtain ⟨ps, hps, hparts⟩ := except_bind.1 hparts
    obtain ⟨rest, hrest, hparts⟩ := except_bind.1 hparts
    obtain rfl := Except.ok.inj hparts
    rw [List.flatten_cons]
    exact (hs.unpack (hes e List.mem_cons_self) hps).append
      (ih hjoined (fun e he => hes e (List.mem_cons_of_mem _ he)) hrest)

end RoutingHierarchy

/-! ## §2. The two climbs. -/

/-- **Labels that were written over edges**: a label without an edge is that of the start, any other
has an edge that leads to its node and that its labelled other end was offered. -/
structure ClimbSearch.Climbed (edges : NodeId → List (HierarchyEdge K)) (source : NodeId)
    (labels : Std.TreeMap NodeId (Climb K)) : Prop where
  root : ∀ (n : NodeId) c, labels[n]? = some c → c.edge = none → n = source
  edge : ∀ (n : NodeId) c e, labels[n]? = some c → c.edge = some e →
    e.adj = n ∧ e ∈ edges e.base ∧ (labels[e.base]?).isSome = true

namespace ClimbSearch

variable {edges : NodeId → List (HierarchyEdge K)} {source : NodeId} {q : ClimbSearch K}

/-- **Tracing back a label** meets offered edges only, and ends at the start. -/
theorem Climbed.climbed (h : Climbed edges source q.labels) {n : NodeId}
    (hn : (q.labels[n]?).isSome = true) {fuel : Nat} {es : List (HierarchyEdge K)}
    (hes : RoutingHierarchy.climbed q.labels fuel n = some es) :
    Joined (·.adj) (·.base) n es source ∧ ∀ e ∈ es, e ∈ edges e.base := by
  -- Induction on the fuel: the edge of a label begins at a node that is labelled too.
  induction fuel generalizing n es with
  | zero => cases hes
  | succ fuel ih =>
    obtain ⟨c, hc⟩ := Option.isSome_iff_exists.1 hn
    rw [RoutingHierarchy.climbed, hc, Option.bind_some] at hes
    cases hedge : c.edge with
    | none =>
      rw [hedge] at hes
      obtain rfl := Option.some.inj hes
      exact ⟨h.root n c hc hedge, fun e he => by cases he⟩
    | some e =>
      rw [hedge] at hes
      obtain ⟨rest, hrest, rfl⟩ := Option.map_eq_some_iff.1 hes
      obtain ⟨hadj, hmem, hbefore⟩ := h.edge n c e hc hedge
      obtain ⟨hjoined, hall⟩ := ih hbefore hrest
      refine ⟨⟨hadj, hjoined⟩, fun f hf => ?_⟩
      obtain rfl | hf := List.mem_cons.1 hf
      · exact hmem
      · exact hall f hf

variable [Scalar K]

theorem climbed_start (edges : NodeId → List (HierarchyEdge K)) (source : NodeId) :
    Climbed edges source (start source : ClimbSearch K).labels := by
  have hlabel : ∀ (n : NodeId) c, (start source : ClimbSearch K).labels[n]? = some c →
      n = source ∧ c.edge = none := by
    intro n c hc
    obtain ⟨rfl, rfl⟩ | hc := getElem?_insert_cases hc
    · exact ⟨rfl, rfl⟩
    · simp at hc
  refine ⟨fun n c hc _ => (hlabel n c hc).1, fun n c e hc he => ?_⟩
  rw [(hlabel n c hc).2] at he
  cases he

variable {h : RoutingHierarchy K} {forward : Bool} {weight : K} {e : HierarchyEdge K}

/-- Relaxing an edge does nothing, or labels the node to which it leads. -/
theorem labels_relax (h : RoutingHierarchy K) (forward : Bool) (weight : K) (q : ClimbSearch K)
    (e : HierarchyEdge K) : (h.relax forward weight q e).labels = q.labels ∨
      ∃ reached, (h.relax forward weight q e).labels = q.labels.insert e.adj ⟨reached, some e⟩ := by
  unfold RoutingHierarchy.relax
  generalize (if forward = true then e.weightForward else e.weightBackward) = cost
  dsimp only
  split
  · exact .inr ⟨_, rfl⟩
  · exact .inl rfl

/-- Relaxing takes no label away. -/
theorem isSome_relax {n : NodeId} (hn : (q.labels[n]?).isSome = true) :
    ((h.relax forward weight q e).labels[n]?).isSome = true := by
  obtain hsame | ⟨reached, hinsert⟩ := labels_relax h forward weight q e
  · rwa [hsame]
  · rw [hinsert]
    exact isSome_insert hn _ _

/-- **Relaxing an edge** that a labelled node is offered. -/
theorem Climbed.relax (hq : Climbed edges source q.labels) (he : e ∈ edges e.base)
    (hbase : (q.labels[e.base]?).isSome = true) :
    Climbed edges source (h.relax forward weight q e).labels := by
  obtain hsame | ⟨reached, hinsert⟩ := labels_relax h forward weight q e
  · rwa [hsame]
  · refine ⟨fun n c hc hroot => ?_, fun n c f hc hf => ?_⟩
    · rw [hinsert] at hc
      obtain ⟨-, rfl⟩ | hc := getElem?_insert_cases hc
      · cases hroot
      · exact hq.root n c hc hroot
    · rw [hinsert] at hc ⊢
      obtain ⟨rfl, rfl⟩ | hc := getElem?_insert_cases hc
      · obtain rfl := Option.some.inj hf
        exact ⟨rfl, he, isSome_insert hbase _ _⟩
      · obtain ⟨hadj, hmem, hlabel⟩ := hq.edge n c f hc hf
        exact ⟨hadj, hmem, isSome_insert hlabel _ _⟩

/-- **Leaving a node** relaxes edges that it is offered; no label is lost. -/
theorem Climbed.leave (h : RoutingHierarchy K) (forward : Bool) (weight : K)
    (hq : Climbed edges source q.labels) {m : NodeId} (hm : (q.labels[m]?).isSome = true)
    {es : List (HierarchyEdge K)} (hes : ∀ e ∈ es, e.base = m ∧ e ∈ edges m) :
    Climbed edges source (es.foldl (h.relax forward weight) q).labels ∧
      ∀ n : NodeId, (q.labels[n]?).isSome = true →
        ((es.foldl (h.relax forward weight) q).labels[n]?).isSome = true := by
  induction es generalizing q with
  | nil => exact ⟨hq, fun _ hn => hn⟩
  | cons e es ih =>
    obtain ⟨rfl, he⟩ := hes e List.mem_cons_self
    have hrelaxed : Climbed edges source (h.relax forward weight q e).labels := hq.relax he hm
    obtain ⟨hclimbed, hkept⟩ := ih hrelaxed (isSome_relax hm) fun f hf =>
      hes f (List.mem_cons_of_mem _ hf)
    exact ⟨hclimbed, fun n hn => hkept n (isSome_relax hn)⟩

end ClimbSearch

namespace Bidirectional

variable {h : RoutingHierarchy K} {b b' : Bidirectional K}

/-- **Both sides climb** from their ends, and they have both been where they meet. -/
structure Climbed (h : RoutingHierarchy K) (s t : NodeId) (b : Bidirectional K) : Prop where
  side : ∀ f, ClimbSearch.Climbed (h.sideEdges f) (origin s t f) (b.side f).labels
  met : ∀ m, b.best.node = some m → ∀ f, ((b.side f).labels[m]?).isSome = true

/-- **One side climbs on**, and what it had labelled stays labelled. -/
theorem Climbed.replaced (hb : b.Climbed h s t) {f : Bool} {q : ClimbSearch K}
    (hq : ClimbSearch.Climbed (h.sideEdges f) (origin s t f) q.labels)
    (hkept : ∀ n : NodeId, ((b.side f).labels[n]?).isSome = true → (q.labels[n]?).isSome = true)
    {best : Meeting K}
    (hbest : ∀ m, best.node = some m → ∀ g, ((b.side g).labels[m]?).isSome = true) :
    (b.replaced f q best).Climbed h s t := by
  refine ⟨fun g => ?_, fun m hm g => ?_⟩
  · rw [side_replaced]
    split
    · rename_i hg
      exact hg ▸ hq
    · exact hb.side g
  · rw [side_replaced]
    split
    · rename_i hg
      exact hkept m (hg ▸ hbest m hm g)
    · exact hbest m hm g

variable [Scalar K]

theorem climbed_start (h : RoutingHierarchy K) (s t : NodeId) :
    (start s t : Bidirectional K).Climbed h s t := by
  refine ⟨fun f => ?_, fun m hm => by cases hm⟩
  cases f <;> exact ClimbSearch.climbed_start _ _

/-- The best meeting is the one so far, or at a node that both sides have reached. -/
theorem Climbed.met_meet (hb : b.Climbed h s t) {f : Bool} {e : FrontierEntry K}
    (he : ((b.side f).labels[e.node]?).isSome = true) {m : NodeId}
    (hm : (b.meet f e).node = some m) (g : Bool) : ((b.side g).labels[m]?).isSome = true := by
  obtain ⟨hmeet, -⟩ | ⟨c, hc, -, hmeet⟩ := meet_cases b f e
  · exact hb.met m (hmeet ▸ hm) g
  · rw [hmeet] at hm
    obtain rfl := Option.some.inj hm
    obtain rfl | rfl : g = f ∨ g = !f := by cases f <;> cases g <;> simp
    · exact he
    · rw [hc]
      rfl

/-- **One step** keeps what is known of both sides. -/
theorem Climbed.step (hb : b.Climbed h s t) (hbase : ∀ f n, ∀ e ∈ h.sideEdges f n, e.base = n)
    (hstep : b.step h = some b') : b'.Climbed h s t := by
  rw [step_eq] at hstep
  generalize b.turn = f at hstep
  cases hfrontier : (b.side f).frontier with
  | nil => simp [hfrontier] at hstep
  | cons e rest =>
    simp only [hfrontier] at hstep
    split at hstep
    · obtain rfl := Option.some.inj hstep
      exact hb.replaced (q := { b.side f with frontier := rest }) (hb.side f) (fun _ hn => hn)
        hb.met
    · -- An entry that is not out of date is that of a labelled node.
      rename_i hlabel
      have he : ((b.side f).labels[e.node]?).isSome = true := by
        cases hc : (b.side f).labels[e.node]? with
        | none => simp [hc] at hlabel
        | some c => rfl
      have hleft := ClimbSearch.Climbed.leave h f e.weight (q := { b.side f with frontier := rest })
        (hb.side f) he fun k hk => ⟨hbase f e.node k hk, hk⟩
      obtain rfl := Option.some.inj hstep
      exact hb.replaced hleft.1 hleft.2 fun m hm g => hb.met_meet he hm g

theorem Climbed.run (hb : b.Climbed h s t) (hbase : ∀ f n, ∀ e ∈ h.sideEdges f n, e.base = n)
    (fuel : Nat) : (b.run h fuel).Climbed h s t := by
  induction fuel generalizing b with
  | zero => exact hb
  | succ fuel ih =>
    unfold Bidirectional.run
    split
    · exact hb
    · cases hstep : b.step h with
      | none => exact hb
      | some b' => exact ih (hb.step hbase hstep)

end Bidirectional

/-! ## §3. The route. -/

namespace RoutingHierarchy

variable {h : RoutingHierarchy K}

/-- **The way over a meeting node** is a row of edges that one side or the other was offered. -/
theorem joined_chain {b : Bidirectional K} (hb : b.Climbed h s t) {m : NodeId}
    (hm : b.best.node = some m) {es : List (HierarchyEdge K)} (hes : chain b m = some es) :
    Joined (·.base) (·.adj) s es t ∧
      ∀ e ∈ es, e ∈ h.outEdges e.base ∨ e.reversed ∈ h.inEdges e.adj := by
  unfold chain at hes
  simp only [Option.bind_eq_bind, Option.bind_eq_some_iff, Option.pure_def,
    Option.some.injEq] at hes
  obtain ⟨up, hup, down, hdown, rfl⟩ := hes
  obtain ⟨hjoined, hall⟩ := (hb.side true).climbed (q := b.side true) (hb.met m hm true) hup
  obtain ⟨hjoined', hall'⟩ := (hb.side false).climbed (q := b.side false) (hb.met m hm false) hdown
  refine ⟨hjoined.reverse.append ?_, fun e he => ?_⟩
  · exact Joined.map.2 hjoined'
  · obtain he | he := List.mem_append.1 he
    · exact .inl (hall e (List.mem_reverse.1 he))
    · obtain ⟨f, hf, rfl⟩ := List.mem_map.1 he
      refine .inr ?_
      rw [HierarchyEdge.reversed_reversed]
      exact hall' f hf

variable [Scalar K]

/-- **A route is a path of hops** from the source to the target, whatever the weights are. -/
theorem StandsFor.route (hs : h.StandsFor R S)
    (hlisted : ∀ f n, ∀ e ∈ h.sideEdges f n, S e ∧ e.base = n) {p : Path K}
    (hroute : h.route s t = .ok (some p)) : p.Hops R s t := by
  unfold RoutingHierarchy.route at hroute
  dsimp only at hroute
  split at hroute
  · cases hroute
  by_cases hst : s = t
  · simp only [hst, ↓reduceIte] at hroute
    obtain rfl := Option.some.inj (Except.ok.inj hroute)
    exact ⟨[], hst, by rw [hst]; rfl, rfl, fun x hx => by cases hx⟩
  · simp only [hst, ↓reduceIte] at hroute
    have hbase : ∀ f n, ∀ e ∈ h.sideEdges f n, e.base = n := fun f n e he => (hlisted f n e he).2
    have hdone := (Bidirectional.climbed_start h s t).run hbase h.limit
    cases hnode : ((Bidirectional.start s t).run h h.limit).best.node with
    | none => simp [hnode, pure, Except.pure] at hroute
    | some m =>
      cases hchain : chain ((Bidirectional.start s t).run h h.limit) m with
      | none => simp [hnode, hchain, pure, Except.pure] at hroute
      | some es =>
        simp only [hnode, hchain] at hroute
        obtain ⟨parts, hparts, hroute⟩ := except_bind.1 hroute
        obtain rfl := Option.some.inj (Except.ok.inj hroute)
        obtain ⟨hjoined, hoffered⟩ := joined_chain hdone hnode hchain
        have hes : ∀ e ∈ es, S e := fun e he => by
          obtain hout | hin := hoffered e he
          · exact (hlisted true e.base e hout).1
          · exact HierarchyEdge.reversed_reversed e ▸
              hs.reversed _ (hlisted false e.adj e.reversed hin).1
        obtain ⟨hrow, hhops⟩ := hs.mapM_unpack hjoined hes hparts
        refine ⟨parts.flatten.map hopOf, Joined.map.2 hrow, ?_, ?_, fun x hx => ?_⟩
        · rw [List.map_map]
          rfl
        · -- Every part has an id, so none is dropped.
          rw [List.map_map, ← List.filterMap_eq_map']
          refine List.filterMap_congr fun e he => ?_
          obtain ⟨id, hid⟩ := Option.isSome_iff_exists.1 (hhops e he).1
          simp [hopOf, hid]
        · obtain ⟨e, he, rfl⟩ := List.mem_map.1 hx
          exact (hhops e he).2

end RoutingHierarchy

end RoadSplice

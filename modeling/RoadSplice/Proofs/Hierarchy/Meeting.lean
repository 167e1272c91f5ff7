/-
  RoadSplice.Proofs.Hierarchy.Meeting — where the two climbing searches meet.

  `Balanced` is the invariant of both searches together: each side is a search in progress, the
  best meeting is one that has been found, and a node that both sides have settled makes no
  better one.  When neither frontier can improve on the best meeting, its weight is the least sum
  of two climbs that end at one node.
-/
import RoadSplice.Proofs.Hierarchy.Climb

namespace RoadSplice

open Wave

/-- Two climbs that end at one node, and what they cost together. -/
def Meets (h : RoutingHierarchy Exact) (s t : NodeId) (c : ℝ) : Prop :=
  ∃ m x y, Walk (h.ClimbStep true) s m x ∧ Walk (h.ClimbStep false) t m y ∧ c = x + y

namespace Bidirectional

variable {h : RoutingHierarchy Exact} {source target : NodeId} {b b' : Bidirectional Exact}
  {done : Bool → List NodeId}

/-! ## §1. The invariant. -/

/-- Where a side begins. -/
def origin (source target : NodeId) (forward : Bool) : NodeId := if forward then source else target

/-- The labels of both sides at a node. -/
def Reaches (b : Bidirectional Exact) (n : NodeId) (x : Bool → ℝ) : Prop :=
  ∀ f, ∃ t, (b.side f).toWave.label n = some (.real (x f), t)

/-- **The invariant of both sides.** -/
structure Balanced (h : RoutingHierarchy Exact) (source target : NodeId)
    (b : Bidirectional Exact) (done : Bool → List NodeId) : Prop where
  side : ∀ f, ∃ floor,
    Progress (h.climbLinks f) (origin source target f) (b.side f).toWave (done f) floor
  /-- A node settled on both sides is no better meeting than the best one. -/
  met : ∀ n, (∀ f, n ∈ done f) → ∃ x z, b.Reaches n x ∧ b.best.weight = .real z ∧
    z ≤ x true + x false
  unmet : b.best.node = none → b.best.weight = .infinite false
  /-- The best meeting has been found. -/
  best : ∀ m, b.best.node = some m → ∃ x z, b.Reaches m x ∧ b.best.weight = .real z ∧
    x true + x false ≤ z

theorem balanced_start (h : RoutingHierarchy Exact) (source target : NodeId) :
    Balanced h source target (start source target) fun _ => [] where
  side f := by
    refine ⟨0, ?_⟩
    have hside : ((start source target).side f).toWave = Wave.start (origin source target f) := by
      cases f <;> exact ClimbSearch.toWave_start _
    rw [hside]
    exact progress_start _ _
  met n hn := by simpa using hn true
  unmet _ := rfl
  best m hm := by simp [start] at hm

/-- The best meeting is a number, or there is none yet. -/
theorem Balanced.best_cases (hb : Balanced h source target b done) :
    b.best.weight = .infinite false ∨ ∃ z, b.best.weight = .real z := by
  cases hnode : b.best.node with
  | none => exact .inl (hb.unmet hnode)
  | some m =>
    obtain ⟨_, z, _, hz, -⟩ := hb.best m hnode
    exact .inr ⟨z, hz⟩

/-! ## §2. Meetings. -/

/-- A meeting at the node of an entry is taken when it is better than the best one. -/
theorem meet_cases {K : Type} [Scalar K] (b : Bidirectional K) (f : Bool) (e : FrontierEntry K) :
    (b.meet f e = b.best ∧ ∀ c, (b.side (!f)).labels[e.node]? = some c →
      ¬ e.weight + c.weight < b.best.weight) ∨
    ∃ c, (b.side (!f)).labels[e.node]? = some c ∧ e.weight + c.weight < b.best.weight ∧
      b.meet f e = ⟨e.weight + c.weight, some e.node⟩ := by
  unfold meet
  cases hc : (b.side (!f)).labels[e.node]? with
  | none => exact .inl ⟨rfl, by simp⟩
  | some c =>
    by_cases hlt : e.weight + c.weight < b.best.weight
    · exact .inr ⟨c, rfl, hlt, by simp [hlt]⟩
    · exact .inl ⟨by simp [hlt], by simpa using hlt⟩

/-- A number for each side. -/
def sides (f : Bool) (x y : ℝ) : Bool → ℝ := fun g => if g = f then x else y

theorem sum_sides (f : Bool) (x y : ℝ) : sides f x y true + sides f x y false = x + y := by
  cases f
  · exact add_comm _ _
  · rfl

theorem Reaches.of_sides {f : Bool} {n : NodeId} {x y : ℝ} {s t : Option (HierarchyEdge Exact)}
    (hx : (b.side f).toWave.label n = some (.real x, s))
    (hy : (b.side (!f)).toWave.label n = some (.real y, t)) : b.Reaches n (sides f x y) := by
  intro g
  by_cases hg : g = f
  · subst hg
    exact ⟨s, by simpa [sides] using hx⟩
  · obtain rfl : g = !f := by cases f <;> cases g <;> simp_all
    exact ⟨t, by simpa [sides] using hy⟩

/-- **The best meeting after a node has been left** on one side is no worse than before, and no
worse than the meeting at that node. -/
theorem Balanced.meet_le (hb : Balanced h source target b done) (f : Bool)
    {e : FrontierEntry Exact} {x : ℝ} (he : e.weight = .real x) :
    (∀ z, b.best.weight = .real z → ∃ z', (b.meet f e).weight = .real z' ∧ z' ≤ z) ∧
      ∀ y t, (b.side (!f)).toWave.label e.node = some (.real y, t) →
        ∃ z', (b.meet f e).weight = .real z' ∧ z' ≤ x + y := by
  obtain ⟨hmeet, hworse⟩ | ⟨c, hc, hlt, hmeet⟩ := meet_cases b f e
  · -- The meeting at this node, if there is one, is no better than the best.
    rw [hmeet]
    refine ⟨fun z hz => ⟨z, hz, le_rfl⟩, fun y t hy => ?_⟩
    obtain ⟨c, hc, hread⟩ := Option.map_eq_some_iff.1 hy
    have hcy : c.weight = .real y := congrArg Prod.fst hread
    have hnot := hworse c hc
    obtain hinf | ⟨z, hz⟩ := hb.best_cases
    · simp [he, hcy, hinf] at hnot
    · refine ⟨z, hz, ?_⟩
      simpa [he, hcy, hz] using hnot
  · -- The meeting at this node is the best one now.
    obtain ⟨floor, hp⟩ := hb.side (!f)
    have hlabel := ClimbSearch.toWave_label hc
    obtain ⟨y, hy, -⟩ := hp.walk hlabel
    have hnew : (b.meet f e).weight = .real (x + y) := by rw [hmeet, he, hy, Exact.real_add]
    refine ⟨fun z hz => ⟨x + y, hnew, ?_⟩, fun y' t hy' => ⟨x + y, hnew, ?_⟩⟩
    · rw [he, hy, hz] at hlt
      exact le_of_lt (by simpa using hlt)
    · obtain ⟨rfl, -⟩ : y = y' ∧ c.edge = t := by simpa [hlabel, hy] using hy'
      exact le_rfl

/-! ## §3. Steps. -/

/-- Both searches with one side replaced, and the best meeting. -/
def replaced {K : Type} (b : Bidirectional K) (f : Bool) (s : ClimbSearch K) (best : Meeting K) :
    Bidirectional K := { b.setSide f s with best := best }

theorem side_replaced {K : Type} (b : Bidirectional K) (f : Bool) (s : ClimbSearch K)
    (best : Meeting K) (g : Bool) :
    (b.replaced f s best).side g = if g = f then s else b.side g := by
  cases f <;> cases g <;> rfl

theorem Reaches.replaced_frozen {f : Bool} {s : ClimbSearch Exact} {settled : List NodeId}
    {n : NodeId} {x : Bool → ℝ} (hx : b.Reaches n x)
    (himp : Improves settled (b.side f).toWave s.toWave) (hn : n ∈ settled)
    (best : Meeting Exact) : (b.replaced f s best).Reaches n x := by
  intro g
  rw [side_replaced]
  split
  · rename_i hg
    subst hg
    rw [himp.frozen n hn]
    exact hx g
  · exact hx g

theorem Reaches.replaced {f : Bool} {s : ClimbSearch Exact} {settled : List NodeId}
    {n : NodeId} {x : Bool → ℝ} (hx : b.Reaches n x)
    (himp : Improves settled (b.side f).toWave s.toWave) (best : Meeting Exact) :
    ∃ y, (b.replaced f s best).Reaches n y ∧ y true + y false ≤ x true + x false := by
  obtain ⟨tx, hxf⟩ := hx f
  obtain ⟨y, t, hy, hle⟩ := himp.better hxf
  refine ⟨Function.update x f y, fun g => ?_, ?_⟩
  · rw [side_replaced]
    by_cases hg : g = f
    · subst hg
      exact ⟨t, by simpa using hy⟩
    · simpa [hg] using hx g
  · cases f
    · simpa using hle
    · simpa using hle

/-- The label of the entry that a side takes next, which weighs no more than the entry. -/
theorem Balanced.head_label (hb : Balanced h source target b done) {f : Bool}
    {e : FrontierEntry Exact} {rest : Frontier Exact} (hf : (b.side f).frontier = e :: rest) :
    ∃ c x y, (b.side f).labels[e.node]? = some c ∧ c.weight = .real x ∧ e.weight = .real y ∧
      x ≤ y := by
  obtain ⟨floor, hp⟩ := hb.side f
  have hmem : e ∈ (b.side f).frontier := hf ▸ List.mem_cons_self
  obtain ⟨x, y, t, hy, -, hlabel, hle⟩ := hp.entry e hmem
  obtain ⟨c, hc, hread⟩ := Option.map_eq_some_iff.1 hlabel
  exact ⟨c, x, y, hc, congrArg Prod.fst hread, hy, hle⟩

/-- **Dropping an overtaken entry** keeps the invariant. -/
theorem Balanced.drop (hb : Balanced h source target b done) {f : Bool}
    {e : FrontierEntry Exact} {rest : Frontier Exact} (hf : (b.side f).frontier = e :: rest)
    {x y : ℝ} {t : Option (HierarchyEdge Exact)} (he : e.weight = .real y)
    (hx : (b.side f).toWave.label e.node = some (.real x, t)) (hxy : x < y) :
    Balanced h source target (b.replaced f { b.side f with frontier := rest } b.best) done := by
  -- An entry less changes no label.
  have himp : ∀ n, Improves [n] (b.side f).toWave
      (ClimbSearch.toWave { b.side f with frontier := rest }) := fun n =>
    ⟨fun _ _ => rfl, fun hl => ⟨_, _, hl, le_rfl⟩⟩
  have hreaches : ∀ n x, b.Reaches n x →
      (b.replaced f { b.side f with frontier := rest } b.best).Reaches n x := fun n x hn =>
    hn.replaced_frozen (himp n) (by simp) b.best
  constructor
  case side =>
    intro g
    rw [side_replaced]
    split
    · rename_i heq
      subst heq
      obtain ⟨floor, hp⟩ := hb.side g
      exact ⟨floor, hp.dropEntry hf he hx hxy⟩
    · exact hb.side g
  case met =>
    intro n hn
    obtain ⟨x, z, hr, hz, hle⟩ := hb.met n hn
    exact ⟨x, z, hreaches _ x hr, hz, hle⟩
  case unmet => exact hb.unmet
  case best =>
    intro m hm
    obtain ⟨x, z, hr, hz, hle⟩ := hb.best m hm
    exact ⟨x, z, hreaches _ x hr, hz, hle⟩

/-- **Leaving a node** on one side keeps the invariant. -/
theorem Balanced.leave (hb : Balanced h source target b done) (hr : h.Routable) {f : Bool}
    {e : FrontierEntry Exact} {rest : Frontier Exact} (hf : (b.side f).frontier = e :: rest)
    {x : ℝ} {t : Option (HierarchyEdge Exact)} (he : e.weight = .real x)
    (hx : (b.side f).toWave.label e.node = some (.real x, t)) {s : ClimbSearch Exact}
    (hs : s.toWave = (h.climbLinks f e.node).foldl (Wave.relax (.real x))
      { (b.side f).toWave with frontier := rest }) :
    Balanced h source target (b.replaced f s (b.meet f e))
        (Function.update done f (done f ++ [e.node])) ∧
      s.frontier.length ≤ rest.length + (h.climbLinks f e.node).length := by
  obtain ⟨floor, hp⟩ := hb.side f
  obtain ⟨hnext, himp, hlen⟩ := hp.leave (hr.nonneg_links f) hf he hx hs
  refine ⟨?_, hlen⟩
  obtain ⟨hbest, hmeet⟩ := hb.meet_le f he
  have hlast : e.node ∈ done f ++ [e.node] := by simp
  constructor
  case side =>
    intro g
    rw [side_replaced]
    by_cases hg : g = f
    · subst hg
      exact ⟨x, by simpa using hnext⟩
    · simpa [hg] using hb.side g
  case met =>
    intro n hn
    have hnf : n ∈ done f ++ [e.node] := by simpa using hn f
    have hno : n ∈ done (!f) := by
      have := hn (!f)
      rwa [Function.update_of_ne (by cases f <;> simp)] at this
    by_cases hnd : n ∈ done f
    · obtain ⟨y, z, hy, hz, hle⟩ := hb.met n fun g => by
        cases f <;> cases g <;> assumption
      obtain ⟨z', hz', hle'⟩ := hbest z hz
      exact ⟨y, z', hy.replaced_frozen himp hnf _, hz', hle'.trans hle⟩
    · -- The node just left: the other side has settled it already.
      obtain rfl : n = e.node := by simpa [hnd] using hnf
      obtain ⟨_, hp'⟩ := hb.side (!f)
      obtain ⟨y, ty, hy, -⟩ := hp'.left _ hno
      obtain ⟨z', hz', hle'⟩ := hmeet y ty hy
      refine ⟨sides f x y, z', (Reaches.of_sides hx hy).replaced_frozen himp hlast _, hz', ?_⟩
      rwa [sum_sides]
  case unmet =>
    intro hnone
    have hnode : (b.meet f e).node = none := hnone
    obtain ⟨heq, -⟩ | ⟨c, -, -, heq⟩ := meet_cases b f e
    · show (b.meet f e).weight = _
      rw [heq] at hnode ⊢
      exact hb.unmet hnode
    · simp [heq] at hnode
  case best =>
    intro m hm
    have hnode : (b.meet f e).node = some m := hm
    obtain ⟨heq, -⟩ | ⟨c, hc, -, heq⟩ := meet_cases b f e
    · -- The best meeting stays, and the labels of its node have not become worse.
      rw [heq] at hnode
      obtain ⟨y, z, hy, hz, hle⟩ := hb.best m hnode
      obtain ⟨y', hy', hle'⟩ := hy.replaced himp (b.meet f e)
      exact ⟨y', z, hy', heq ▸ hz, hle'.trans hle⟩
    · -- The meeting at the node just left is the best one now.
      obtain rfl : e.node = m := by simpa [heq] using hnode
      obtain ⟨_, hp'⟩ := hb.side (!f)
      have hlabel := ClimbSearch.toWave_label hc
      obtain ⟨y, hy, -⟩ := hp'.walk hlabel
      rw [hy] at hlabel
      obtain ⟨y', hy', hle'⟩ := (Reaches.of_sides hx hlabel).replaced himp (b.meet f e)
      refine ⟨y', x + y, hy', ?_, hle'.trans (sum_sides f x y).le⟩
      show (b.meet f e).weight = _
      rw [heq, he, hy, Exact.real_add]

/-! ## §4. How long both searches take. -/

/-- The entries that wait on both sides. -/
def waiting (b : Bidirectional Exact) : Nat :=
  b.forward.frontier.length + b.backward.frontier.length

theorem waiting_eq (b : Bidirectional Exact) (f : Bool) :
    b.waiting = (b.side f).frontier.length + (b.side (!f)).frontier.length := by
  cases f
  · exact Nat.add_comm _ _
  · rfl

/-- The links that both sides have relaxed. -/
def relaxed (h : RoutingHierarchy Exact) (done : Bool → List NodeId) : Nat :=
  degrees (h.climbLinks true) (done true) + degrees (h.climbLinks false) (done false)

theorem relaxed_eq (h : RoutingHierarchy Exact) (done : Bool → List NodeId) (f : Bool) :
    relaxed h done = degrees (h.climbLinks f) (done f) + degrees (h.climbLinks (!f)) (done (!f)) := by
  cases f
  · exact Nat.add_comm _ _
  · rfl

/-- The side whose turn it is. -/
def turn {K : Type} [Scalar K] (b : Bidirectional K) : Bool :=
  b.forward.frontier.topWeight ≤ b.backward.frontier.topWeight

/-- A step of the side whose turn it is. -/
theorem step_eq {K : Type} [Scalar K] (h : RoutingHierarchy K) (b : Bidirectional K) :
    b.step h = match (b.side b.turn).frontier with
      | [] => none
      | e :: rest =>
        if ((b.side b.turn).labels[e.node]?).all (·.weight < e.weight) then
          some (b.replaced b.turn { b.side b.turn with frontier := rest } b.best)
        else
          some (b.replaced b.turn ((h.sideEdges b.turn e.node).foldl (h.relax b.turn e.weight)
            { b.side b.turn with frontier := rest }) (b.meet b.turn e)) := by
  by_cases hle : b.forward.frontier.topWeight ≤ b.backward.frontier.topWeight
  · have hturn : b.turn = true := decide_eq_true hle
    simp only [step, hle, decide_true, hturn]
    cases (b.side true).frontier with
    | nil => rfl
    | cons e rest =>
      simp only [if_true]
      rfl
  · have hturn : b.turn = false := decide_eq_false hle
    simp only [step, hle, decide_false, hturn]
    cases (b.side false).frontier <;> rfl

/-- **A step keeps the invariant** and uses up an entry. -/
theorem Balanced.step (hb : Balanced h source target b done) (hr : h.Routable)
    (hstep : b.step h = some b') :
    ∃ done', Balanced h source target b' done' ∧
      b'.waiting + relaxed h done + 1 ≤ b.waiting + relaxed h done' := by
  rw [step_eq] at hstep
  generalize b.turn = f at hstep
  cases hf : (b.side f).frontier with
  | nil => simp [hf] at hstep
  | cons e rest =>
    obtain ⟨c, x, y, hc, hx, he, hle⟩ := hb.head_label hf
    have hlabel : (b.side f).toWave.label e.node = some (.real x, c.edge) :=
      hx ▸ ClimbSearch.toWave_label hc
    simp only [hf, hc, Option.all_some, hx, he, Exact.real_lt_real, decide_eq_true_eq] at hstep
    have hown := side_replaced b f
    have hother : ∀ s best, (b.replaced f s best).side (!f) = b.side (!f) := fun s best => by
      rw [hown, if_neg (by cases f <;> simp)]
    by_cases hxy : x < y
    · -- The entry has been overtaken.
      rw [if_pos hxy, Option.some.injEq] at hstep
      subst hstep
      refine ⟨done, hb.drop hf he hlabel hxy, ?_⟩
      rw [waiting_eq _ f, waiting_eq b f, hown, if_pos rfl, hother, hf]
      simp only [List.length_cons]
      omega
    · -- The node is left, and its links take the place of the entry.
      rw [if_neg hxy, Option.some.injEq] at hstep
      obtain rfl : x = y := le_antisymm hle (not_lt.1 hxy)
      subst hstep
      obtain ⟨hnext, hlen⟩ := hb.leave hr hf he hlabel
        (RoutingHierarchy.toWave_leave f (.real x) e.node { b.side f with frontier := rest })
      refine ⟨_, hnext, ?_⟩
      rw [waiting_eq _ f, waiting_eq b f, hown, if_pos rfl, hother, hf, relaxed_eq h done f,
        relaxed_eq h (Function.update done f (done f ++ [e.node])) f, Function.update_self,
        degrees_append, Function.update_of_ne (by cases f <;> simp)]
      dsimp only at hlen ⊢
      simp only [List.length_cons]
      omega

/-! ## §5. The end. -/

/-- Neither frontier can improve on the best meeting. -/
def Over (b : Bidirectional Exact) : Prop :=
  ∀ f, ∀ e ∈ (b.side f).frontier, b.best.weight ≤ e.weight

/-- The top of a frontier weighs no more than any entry. -/
theorem Balanced.top_le (hb : Balanced h source target b done) {f : Bool}
    {e : FrontierEntry Exact} (he : e ∈ (b.side f).frontier) :
    (b.side f).frontier.topWeight ≤ e.weight := by
  obtain ⟨floor, hp⟩ := hb.side f
  cases hf : (b.side f).frontier with
  | nil => simp [hf] at he
  | cons a rest =>
    obtain ⟨_, y, _, hy, -⟩ := hp.entry a (show a ∈ (b.side f).frontier from hf ▸ List.mem_cons_self)
    obtain ⟨_, z, _, hz, -⟩ := hp.entry e he
    have := hp.head_le hf hy he hz
    simpa [Frontier.topWeight, hy, hz] using this

theorem Balanced.over_of_isOver (hb : Balanced h source target b done) (hover : b.isOver = true) :
    b.Over := by
  intro f e he
  have htop : b.best.weight ≤ (b.side f).frontier.topWeight := by
    unfold isOver at hover
    rw [Bool.and_eq_true, decide_eq_true_eq, decide_eq_true_eq] at hover
    cases f
    · exact hover.2
    · exact hover.1
  exact Exact.le_of_le_of_le htop (hb.top_le he)

/-- When the side whose turn it is has no entry left, the other side has none either. -/
theorem Balanced.over_of_step_none (hb : Balanced h source target b done)
    (hstep : b.step h = none) : b.Over := by
  rw [step_eq] at hstep
  have hempty : (b.side b.turn).frontier = [] := by
    cases hf : (b.side b.turn).frontier with
    | nil => rfl
    | cons e rest =>
      rw [hf] at hstep
      dsimp only at hstep
      split at hstep <;> simp at hstep
  intro f e he
  obtain ⟨floor, hp⟩ := hb.side f
  obtain ⟨_, y, _, hy, -⟩ := hp.entry e he
  have htop := hb.top_le he
  exfalso
  by_cases hf : f = b.turn
  · rw [hf, hempty] at he
    simp at he
  · -- An empty frontier has an infinite top, so a side with an entry would have had its turn.
    cases hturn : b.turn with
    | true =>
      obtain rfl : f = false := by simpa [hturn] using hf
      rw [hturn] at hempty
      have hle : b.forward.frontier.topWeight ≤ b.backward.frontier.topWeight := by
        simpa [turn] using hturn
      have hinf : b.forward.frontier.topWeight = .infinite false := by
        rw [show b.forward.frontier = [] from hempty]
        rfl
      rw [hinf] at hle
      have := Exact.le_of_le_of_le hle htop
      simp [hy] at this
    | false =>
      obtain rfl : f = true := by simpa [hturn] using hf
      rw [hturn] at hempty
      have hle : ¬ b.forward.frontier.topWeight ≤ b.backward.frontier.topWeight := by
        simpa [turn] using hturn
      have hinf : b.backward.frontier.topWeight = .infinite false := by
        rw [show b.backward.frontier = [] from hempty]
        rfl
      rw [hinf] at hle
      refine hle (Exact.le_of_le_of_le htop ?_)
      simp [hy]

/-- **Both searches end** within as many steps as there are entries at hand and links to relax. -/
theorem run_over (hr : h.Routable) (hs : source < h.nodeCount) (ht : target < h.nodeCount)
    (fuel : Nat) (hb : Balanced h source target b done)
    (hfuel : relaxed h (fun _ => List.range h.nodeCount) + b.waiting ≤ fuel + relaxed h done) :
    ∃ done', Balanced h source target (run h fuel b) done' ∧ (run h fuel b).Over := by
  have hlinks : ∀ f n, ∀ l ∈ h.climbLinks f n, l.node < h.nodeCount := by
    intro f n l hl
    obtain ⟨e, he, rfl⟩ := List.mem_map.1 hl
    exact hr.adj_lt f n e (List.mem_filter.1 he).1
  induction fuel generalizing b done with
  | zero =>
    -- All links have been relaxed, so no entry is left.
    obtain ⟨_, hpf⟩ := hb.side true
    obtain ⟨_, hpb⟩ := hb.side false
    have hf := hpf.degrees_le hs (hlinks true)
    have hbw := hpb.degrees_le ht (hlinks false)
    have hwait : b.waiting = 0 := by
      simp only [relaxed] at hfuel
      omega
    refine ⟨done, hb, fun f e he => ?_⟩
    have hlen : 0 < (b.side f).frontier.length := List.length_pos_of_mem he
    rw [waiting_eq b f] at hwait
    omega
  | succ fuel ih =>
    rw [run]
    by_cases hover : b.isOver = true
    · rw [if_pos hover]
      exact ⟨done, hb, hb.over_of_isOver hover⟩
    · rw [if_neg hover]
      cases hstep : b.step h with
      | none => exact ⟨done, hb, hb.over_of_step_none hstep⟩
      | some b' =>
        obtain ⟨done', hb', hwork⟩ := hb.step hr hstep
        exact ih hb' (by omega)

/-- **At the end the best meeting is the best of all.** -/
theorem Balanced.best_le (hb : Balanced h source target b done) (hr : h.Routable) (hover : b.Over)
    {c : ℝ} (hc : Meets h source target c) : ∃ z, b.best.weight = .real z ∧ z ≤ c := by
  obtain ⟨m, x, y, hx, hy, rfl⟩ := hc
  have hx' := hx.mono fun hstep => RoutingHierarchy.follows_climbLinks.2 hstep
  have hy' := hy.mono fun hstep => RoutingHierarchy.follows_climbLinks.2 hstep
  have hx0 := (hr.nonneg_links true).walk hx'
  have hy0 := (hr.nonneg_links false).walk hy'
  -- An entry that a climb has not passed already weighs at least the best meeting.
  have hentry : ∀ f, ∀ e ∈ (b.side f).frontier, ∀ d, e.weight = .real d → d ≤ x + y →
      ∃ z, b.best.weight = .real z ∧ z ≤ x + y := by
    intro f e he d hd hle
    have := hover f e he
    obtain hinf | ⟨z, hz⟩ := hb.best_cases
    · simp [hinf, hd] at this
    · exact ⟨z, hz, by rw [hz, hd] at this; exact (by simpa using this : z ≤ d).trans hle⟩
  obtain ⟨_, hpf⟩ := hb.side true
  obtain ⟨_, hpb⟩ := hb.side false
  obtain ⟨hmf, x', s, hx', hlx⟩ | ⟨e, he, d, hd, hle⟩ := hpf.reached (hr.nonneg_links true) hx'
  · -- Both climbs have been passed, so both sides have settled the node where they meet.
    obtain ⟨hmb, y', t, hy', hly⟩ | ⟨e, he, d, hd, hle⟩ := hpb.reached (hr.nonneg_links false) hy'
    · obtain ⟨u, z, hu, hz, hle⟩ := hb.met m fun f => by cases f <;> assumption
      obtain ⟨s', hs'⟩ := hu true
      obtain ⟨t', ht'⟩ := hu false
      obtain ⟨rfl, -⟩ : x' = u true ∧ s = s' := by simpa [hx'] using hs'
      obtain ⟨rfl, -⟩ : y' = u false ∧ t = t' := by simpa [hy'] using ht'
      exact ⟨z, hz, by linarith⟩
    · exact hentry false e he d hd (by linarith)
  · exact hentry true e he d hd (by linarith)

end Bidirectional

end RoadSplice

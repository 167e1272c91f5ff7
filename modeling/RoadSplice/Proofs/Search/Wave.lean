/-
  RoadSplice.Proofs.Search.Wave — what every search by weight has in common.

  A *wave* is a search stripped of its graph: labels, each with a tag that tells how the node
  was reached, and a frontier.  Nodes are settled in the order of their weights.  `Settled` is
  the invariant of a wave over links that never cost less than nothing; relaxing one link keeps
  it, and so does taking an entry from the frontier, whether the entry is still current or has
  been overtaken.  From it follow the two facts for which searches are run: a label is the cost
  of a walk, and a walk that costs less than all of the frontier ends at a settled node.
-/
import Mathlib.Logic.Function.Basic
import RoadSplice.Proofs.Search.Frontier
import RoadSplice.Proofs.Search.Walk

namespace RoadSplice

/-! ## §1. Waves. -/

/-- A way on from a node, with a tag for the label of the node to which it leads. -/
structure Link (β : Type) where
  node : NodeId
  cost : Exact
  tag : β

/-- A search in progress. -/
structure Wave (β : Type) where
  label : NodeId → Option (Exact × Option β)
  frontier : Frontier Exact

namespace Wave

variable {β : Type}

/-- The search that has reached its first node. -/
noncomputable def start (source : NodeId) : Wave β :=
  ⟨Function.update (fun _ => none) source (some (.real 0, none)), [⟨.real 0, source⟩]⟩

/-- A node labelled anew, with an entry for it. -/
noncomputable def improve (w : Wave β) (node : NodeId) (weight : Exact) (tag : β) : Wave β :=
  ⟨Function.update w.label node (some (weight, some tag)), w.frontier.insert ⟨weight, node⟩⟩

/-- Relaxing a link from a node that was left at some weight. -/
noncomputable def relax (weight : Exact) (w : Wave β) (l : Link β) : Wave β :=
  if Scalar.isFinite l.cost ∧ (w.label l.node).all (weight + l.cost < ·.1) then
    w.improve l.node (weight + l.cost) l.tag
  else w

@[simp]
theorem label_improve_self (w : Wave β) (node : NodeId) (weight : Exact) (tag : β) :
    (w.improve node weight tag).label node = some (weight, some tag) := by
  simp [improve]

theorem label_improve_of_ne {w : Wave β} {node n : NodeId} {weight : Exact} {tag : β}
    (h : n ≠ node) : (w.improve node weight tag).label n = w.label n :=
  Function.update_of_ne h _ _

/-- A label after the change is the new one or one that was there. -/
theorem label_improve_cases {w : Wave β} {node n : NodeId} {weight a : Exact} {tag : β}
    {t : Option β} (h : (w.improve node weight tag).label n = some (a, t)) :
    (n = node ∧ a = weight ∧ t = some tag) ∨ (n ≠ node ∧ w.label n = some (a, t)) := by
  by_cases hn : n = node
  · subst hn
    rw [label_improve_self, Option.some.injEq, Prod.mk.injEq] at h
    exact .inl ⟨rfl, h.1.symm, h.2.symm⟩
  · exact .inr ⟨hn, label_improve_of_ne hn ▸ h⟩

theorem mem_frontier_improve {w : Wave β} {node : NodeId} {weight : Exact} {tag : β}
    {e : FrontierEntry Exact} :
    e ∈ (w.improve node weight tag).frontier ↔ e = ⟨weight, node⟩ ∨ e ∈ w.frontier :=
  Frontier.mem_insert

/-- A link as a step of a walk. -/
def Follows (links : NodeId → List (Link β)) (u v : NodeId) (c : ℝ) : Prop :=
  ∃ l ∈ links u, l.node = v ∧ l.cost = .real c

/-! ## §2. The invariant. -/

/-- **The invariant**: `done` lists the settled nodes in the order in which they were settled, and
`floor` is the weight of the last one. -/
structure Settled (links : NodeId → List (Link β)) (source : NodeId) (w : Wave β)
    (done : List NodeId) (floor : ℝ) : Prop where
  root : w.label source = some (.real 0, none)
  only_root : ∀ {n a}, w.label n = some (a, none) → n = source
  /-- A label is the cost of a walk. -/
  walk : ∀ {n a t}, w.label n = some (a, t) →
    ∃ x, a = .real x ∧ Walk (Follows links) source n x
  /-- A node is reached from one that was settled before it. -/
  parent : ∀ {n a tag}, w.label n = some (a, some tag) →
    ∃ p ∈ done, (n ∈ done → done.idxOf p < done.idxOf n) ∧
      ∃ l ∈ links p, l.node = n ∧ l.tag = tag ∧
        ∃ b t, w.label p = some (b, t) ∧ a = b + l.cost
  /-- Entries weigh no less than what was settled, and no less than the label of their node. -/
  entry : ∀ e ∈ w.frontier, ∃ x y t, e.weight = .real y ∧ floor ≤ y ∧
    w.label e.node = some (.real x, t) ∧ x ≤ y
  sorted : w.frontier.Sorted
  nodup : w.frontier.Nodup
  pending : ∀ {n a t}, w.label n = some (a, t) → n ∉ done → ⟨a, n⟩ ∈ w.frontier
  /-- Entries of settled nodes have been overtaken. -/
  left : ∀ n ∈ done, ∃ x t, w.label n = some (.real x, t) ∧ x ≤ floor ∧
    ∀ y, ⟨.real y, n⟩ ∈ w.frontier → x < y
  done_nodup : done.Nodup

/-- The links of a node have been relaxed. -/
def Relaxed (links : List (Link β)) (w : Wave β) (n : NodeId) : Prop :=
  ∀ l ∈ links, ∀ c, l.cost = .real c →
    ∃ x y s t, w.label n = some (.real x, s) ∧ w.label l.node = some (.real y, t) ∧ y ≤ x + c

variable {links : NodeId → List (Link β)} {source : NodeId} {w : Wave β} {done : List NodeId}
  {floor : ℝ}

theorem settled_start (links : NodeId → List (Link β)) (source : NodeId) :
    Settled links source (start source) [] 0 where
  root := by simp [start]
  only_root {n a} h := by
    by_contra hn
    simp [start, Function.update_of_ne hn] at h
  walk {n a t} h := by
    by_cases hn : n = source
    · subst hn
      obtain ⟨rfl, -⟩ : .real 0 = a ∧ none = t := by simpa [start] using h
      exact ⟨0, rfl, .nil n⟩
    · simp [start, Function.update_of_ne hn] at h
  parent {n a tag} h := by
    by_cases hn : n = source
    · subst hn
      simp [start] at h
    · simp [start, Function.update_of_ne hn] at h
  entry e he := by
    obtain rfl : e = ⟨.real 0, source⟩ := by simpa [start] using he
    exact ⟨0, 0, none, rfl, le_rfl, by simp [start], le_rfl⟩
  sorted := List.pairwise_singleton _ _
  nodup := List.nodup_singleton _
  pending {n a t} h _ := by
    by_cases hn : n = source
    · subst hn
      obtain ⟨rfl, -⟩ : .real 0 = a ∧ none = t := by simpa [start] using h
      simp [start]
    · simp [start, Function.update_of_ne hn] at h
  left n hn := by simp at hn
  done_nodup := List.nodup_nil

/-! ## §3. Relaxing. -/

/-- A relaxed link either changes nothing, its node being labelled well enough, or labels a node
better than before. -/
theorem relax_cases (weight : ℝ) (w : Wave β) (l : Link β)
    (hlabels : ∀ {n a t}, w.label n = some (a, t) → a.IsReal) :
    (relax (.real weight) w l = w ∧ ∀ c, l.cost = .real c →
      ∃ y t, w.label l.node = some (.real y, t) ∧ y ≤ weight + c) ∨
    ∃ c, l.cost = .real c ∧
      relax (.real weight) w l = w.improve l.node (.real (weight + c)) l.tag ∧
      ∀ y t, w.label l.node = some (.real y, t) → weight + c < y := by
  unfold relax
  -- A link is followed only if its cost is a number.
  by_cases hc : l.cost.IsReal
  · obtain ⟨c, hc⟩ := hc
    cases hl : w.label l.node with
    | none =>
      right
      refine ⟨c, hc, ?_, by simp⟩
      rw [if_pos (by simp [hc])]
      simp [hc]
    | some at_ =>
      obtain ⟨a, t⟩ := at_
      obtain ⟨y, rfl⟩ := hlabels hl
      by_cases hlt : weight + c < y
      · right
        refine ⟨c, hc, ?_, ?_⟩
        · rw [if_pos (by simp [hc, hlt])]
          simp [hc]
        · rintro y' t' h
          obtain ⟨rfl, -⟩ : y = y' ∧ t = t' := by simpa using h
          exact hlt
      · left
        refine ⟨if_neg (by simp [hc, hlt]), fun c' hc' => ⟨y, t, rfl, ?_⟩⟩
        obtain rfl : c = c' := by simpa [hc] using hc'
        exact not_lt.1 hlt
  · left
    refine ⟨if_neg (by simp [hc]), fun c hc' => absurd ⟨c, hc'⟩ hc⟩

theorem Settled.isReal (h : Settled links source w done floor) {n : NodeId} {a : Exact}
    {t : Option β} (hl : w.label n = some (a, t)) : a.IsReal := by
  obtain ⟨x, rfl, -⟩ := h.walk hl
  exact Exact.isReal_real x

/-- A node settled last, with the floor as its label. -/
structure AtFloor (w : Wave β) (done : List NodeId) (floor : ℝ) (u : NodeId) : Prop where
  mem : u ∈ done
  label : ∃ t, w.label u = some (.real floor, t)

/-- **A node that is not settled may be labelled anew**, better than before, from a node that
was settled at the floor. -/
theorem Settled.improve (h : Settled links source w done floor) {u : NodeId}
    (hu : AtFloor w done floor u) {l : Link β} (hl : l ∈ links u) {c : ℝ} (hc : l.cost = .real c)
    (hc0 : 0 ≤ c) (hnode : l.node ∉ done) (hroot : l.node ≠ source)
    (hbetter : ∀ y t, w.label l.node = some (.real y, t) → floor + c < y) :
    Settled links source (w.improve l.node (.real (floor + c)) l.tag) done floor := by
  obtain ⟨tu, hlabelu⟩ := hu.label
  obtain ⟨x, hx, hwalku⟩ := h.walk hlabelu
  obtain rfl : floor = x := by simpa using hx
  have hdone : ∀ {n}, n ∈ done → n ≠ l.node := fun hn heq => hnode (heq ▸ hn)
  have hreal : ∀ e ∈ w.frontier, e.weight.IsReal := fun e he => by
    obtain ⟨_, y, _, hy, -⟩ := h.entry e he
    exact ⟨y, hy⟩
  -- Entries that the node has already weigh more, so the new one is not among them.
  have hfresh : ∀ y, ⟨.real y, l.node⟩ ∈ w.frontier → floor + c < y := fun y hy => by
    obtain ⟨x, y', t, hy', -, hlabel, hle⟩ := h.entry _ hy
    obtain rfl : y = y' := by simpa using hy'
    exact (hbetter x t hlabel).trans_le hle
  constructor
  case root =>
    rw [label_improve_of_ne hroot.symm]
    exact h.root
  case only_root =>
    intro n a hn
    obtain ⟨-, -, hnone⟩ | ⟨-, hn⟩ := label_improve_cases hn
    · cases hnone
    · exact h.only_root hn
  case walk =>
    intro n a t hn
    obtain ⟨rfl, rfl, -⟩ | ⟨-, hn⟩ := label_improve_cases hn
    · exact ⟨_, rfl, hwalku.snoc ⟨l, hl, rfl, hc⟩⟩
    · exact h.walk hn
  case parent =>
    intro n a tag hn
    obtain ⟨rfl, rfl, htag⟩ | ⟨-, hn⟩ := label_improve_cases hn
    · obtain rfl := Option.some.inj htag
      refine ⟨u, hu.mem, fun hmem => absurd hmem hnode, l, hl, rfl, rfl, .real floor, tu, ?_, ?_⟩
      · rw [label_improve_of_ne (hdone hu.mem)]
        exact hlabelu
      · simp [hc]
    · -- Parents are settled, so their labels have not changed.
      obtain ⟨p, hp, hbefore, l', hl', hnode', htag, b, t, hb, hsum⟩ := h.parent hn
      refine ⟨p, hp, hbefore, l', hl', hnode', htag, b, t, ?_, hsum⟩
      rw [label_improve_of_ne (hdone hp)]
      exact hb
  case entry =>
    intro e he
    obtain rfl | he := mem_frontier_improve.1 he
    · exact ⟨floor + c, floor + c, some l.tag, rfl, by linarith, label_improve_self .., le_rfl⟩
    · obtain ⟨x, y, t, hy, hle, hlabel, hxy⟩ := h.entry e he
      by_cases hel : e.node = l.node
      · have hlt := hbetter x t (hel ▸ hlabel)
        exact ⟨floor + c, y, some l.tag, hy, hle, hel ▸ label_improve_self .., by linarith⟩
      · exact ⟨x, y, t, hy, hle, (label_improve_of_ne hel).trans hlabel, hxy⟩
  case sorted => exact h.sorted.insert (Exact.isReal_real _).ne_nan fun a ha => (hreal a ha).ne_nan
  case nodup =>
    refine Frontier.nodup_insert h.nodup fun hmem => ?_
    exact lt_irrefl _ (hfresh _ hmem)
  case pending =>
    intro n a t hn hnd
    obtain ⟨rfl, rfl, -⟩ | ⟨-, hn⟩ := label_improve_cases hn
    · exact mem_frontier_improve.2 (.inl rfl)
    · exact mem_frontier_improve.2 (.inr (h.pending hn hnd))
  case left =>
    intro n hn
    obtain ⟨x, t, hx, hle, hafter⟩ := h.left n hn
    refine ⟨x, t, (label_improve_of_ne (hdone hn)).trans hx, hle, fun y hy => ?_⟩
    obtain heq | hy := mem_frontier_improve.1 hy
    · exact absurd (congrArg FrontierEntry.node heq) (hdone hn)
    · exact hafter y hy
  case done_nodup => exact h.done_nodup

/-- No link costs less than nothing. -/
def Nonneg (links : NodeId → List (Link β)) : Prop :=
  ∀ n, ∀ l ∈ links n, ∀ c, l.cost = .real c → 0 ≤ c

theorem Nonneg.walk (h : Nonneg links) {n m : NodeId} {x : ℝ}
    (hw : Walk (Follows links) n m x) : 0 ≤ x :=
  hw.nonneg fun ⟨l, hl, _, hcost⟩ => h _ l hl _ hcost

/-- Labels of settled nodes are as they were, and no other label has become worse. -/
structure Improves (done : List NodeId) (w w' : Wave β) : Prop where
  frozen : ∀ n ∈ done, w'.label n = w.label n
  better : ∀ {n x t}, w.label n = some (.real x, t) →
    ∃ y t', w'.label n = some (.real y, t') ∧ y ≤ x

theorem Improves.refl (done : List NodeId) (w : Wave β) : Improves done w w :=
  ⟨fun _ _ => rfl, fun h => ⟨_, _, h, le_rfl⟩⟩

theorem Improves.trans {w₁ w₂ w₃ : Wave β} (h : Improves done w₁ w₂) (h' : Improves done w₂ w₃) :
    Improves done w₁ w₃ where
  frozen n hn := (h'.frozen n hn).trans (h.frozen n hn)
  better hl := by
    obtain ⟨y, t', hy, hle⟩ := h.better hl
    obtain ⟨z, t'', hz, hle'⟩ := h'.better hy
    exact ⟨z, t'', hz, hle'.trans hle⟩

theorem Relaxed.improves {ls : List (Link β)} {n : NodeId} {w w' : Wave β}
    (h : Relaxed ls w n) (hw : Improves done w w') (hn : n ∈ done) : Relaxed ls w' n := by
  intro l hl c hc
  obtain ⟨x, y, s, t, hx, hy, hle⟩ := h l hl c hc
  obtain ⟨z, t', hz, hle'⟩ := hw.better hy
  exact ⟨x, z, s, t', (hw.frozen n hn).trans hx, hz, hle'.trans hle⟩

/-- **Relaxing a link keeps the invariant.** -/
theorem Settled.relax (h : Settled links source w done floor) (hlinks : Nonneg links)
    {u : NodeId} (hu : AtFloor w done floor u) {l : Link β} (hl : l ∈ links u) :
    Settled links source (Wave.relax (.real floor) w l) done floor ∧
      Improves done w (Wave.relax (.real floor) w l) ∧
      Relaxed [l] (Wave.relax (.real floor) w l) u := by
  obtain ⟨tu, hlabelu⟩ := hu.label
  obtain ⟨heq, hgood⟩ | ⟨c, hc, heq, hbetter⟩ := relax_cases floor w l h.isReal
  · rw [heq]
    refine ⟨h, .refl done w, fun l' hl' c hc => ?_⟩
    obtain rfl := List.mem_singleton.1 hl'
    obtain ⟨y, t, hy, hle⟩ := hgood c hc
    exact ⟨floor, y, tu, t, hlabelu, hy, hle⟩
  rw [heq]
  have hc0 : 0 ≤ c := hlinks u l hl c hc
  have hfloor : 0 ≤ floor := by
    obtain ⟨x, hx, hwalku⟩ := h.walk hlabelu
    obtain rfl : floor = x := by simpa using hx
    exact hlinks.walk hwalku
  -- Settled nodes weigh no more than the floor, so the relaxed node is none of them.
  have hnode : l.node ∉ done := fun hmem => by
    obtain ⟨y, t, hy, hle, -⟩ := h.left _ hmem
    have := hbetter y t hy
    linarith
  have hroot : l.node ≠ source := fun heq => by
    have := hbetter 0 none (heq ▸ h.root)
    linarith
  have hfrozen : ∀ n ∈ done, n ≠ l.node := fun n hn heq => hnode (heq ▸ hn)
  refine ⟨h.improve hu hl hc hc0 hnode hroot hbetter, ⟨fun n hn => ?_, fun {n x t} hn => ?_⟩, ?_⟩
  · exact label_improve_of_ne (hfrozen n hn)
  · by_cases hnl : n = l.node
    · subst hnl
      exact ⟨floor + c, some l.tag, label_improve_self .., (hbetter x t hn).le⟩
    · exact ⟨x, t, (label_improve_of_ne hnl).trans hn, le_rfl⟩
  · intro l' hl' c' hc'
    obtain rfl := List.mem_singleton.1 hl'
    obtain rfl : c = c' := by simpa [hc] using hc'
    exact ⟨floor, floor + c, tu, some l'.tag,
      (label_improve_of_ne (hfrozen u hu.mem)).trans hlabelu, label_improve_self .., le_rfl⟩

theorem length_relax_le (weight : Exact) (w : Wave β) (l : Link β) :
    (Wave.relax weight w l).frontier.length ≤ w.frontier.length + 1 := by
  unfold Wave.relax
  split
  · exact (Frontier.length_insert _ _).le
  · exact Nat.le_succ _

/-- **Relaxing all links of a node** keeps the invariant, and adds an entry for each link at
most. -/
theorem Settled.relaxAll (h : Settled links source w done floor) (hlinks : Nonneg links)
    {u : NodeId} (hu : AtFloor w done floor u) {ls : List (Link β)} (hls : ls ⊆ links u) :
    Settled links source (ls.foldl (Wave.relax (.real floor)) w) done floor ∧
      Improves done w (ls.foldl (Wave.relax (.real floor)) w) ∧
      Relaxed ls (ls.foldl (Wave.relax (.real floor)) w) u ∧
      (ls.foldl (Wave.relax (.real floor)) w).frontier.length ≤
        w.frontier.length + ls.length := by
  induction ls generalizing w with
  | nil => exact ⟨h, .refl done w, fun l hl => by simp at hl, le_rfl⟩
  | cons l ls ih =>
    obtain ⟨hl, htail⟩ := List.cons_subset.1 hls
    obtain ⟨hstep, himp, hrel⟩ := h.relax hlinks hu hl
    have hu' : AtFloor (Wave.relax (.real floor) w l) done floor u :=
      ⟨hu.mem, by rw [himp.frozen u hu.mem]; exact hu.label⟩
    obtain ⟨hrest, himp', hrel', hlen⟩ := ih hstep hu' htail
    refine ⟨hrest, himp.trans himp', fun l' hl' => ?_, ?_⟩
    · obtain rfl | hl' := List.mem_cons.1 hl'
      · exact hrel.improves himp' hu.mem l' (by simp)
      · exact hrel' l' hl'
    · have := length_relax_le (.real floor) w l
      simp only [List.foldl_cons, List.length_cons] at hlen ⊢
      omega

/-! ## §4. Taking an entry. -/

/-- **An overtaken entry is dropped.** -/
theorem Settled.drop (h : Settled links source w done floor) {e : FrontierEntry Exact}
    {rest : Frontier Exact} (hf : w.frontier = e :: rest) {x y : ℝ} {t : Option β}
    (he : e.weight = .real y) (hx : w.label e.node = some (.real x, t)) (hxy : x < y) :
    Settled links source { w with frontier := rest } done floor where
  root := h.root
  only_root := h.only_root
  walk := h.walk
  parent := h.parent
  entry a ha := h.entry a (hf ▸ List.mem_cons_of_mem e ha)
  sorted := (List.pairwise_cons.1 (hf ▸ h.sorted)).2
  nodup := (List.nodup_cons.1 (hf ▸ h.nodup)).2
  pending {n a t'} hn hnd := by
    have hmem := h.pending hn hnd
    rw [hf] at hmem
    obtain heq | hmem := List.mem_cons.1 hmem
    · -- The entry of the label itself has not been overtaken.
      subst heq
      have hsame : some (a, t') = some (.real x, t) := hn.symm.trans hx
      obtain ⟨rfl, -⟩ : a = .real x ∧ t' = t := by simpa using hsame
      obtain rfl : x = y := by simpa using he
      exact absurd hxy (lt_irrefl x)
    · exact hmem
  left n hn := by
    obtain ⟨z, s, hz, hle, hafter⟩ := h.left n hn
    exact ⟨z, s, hz, hle, fun y hy => hafter y (hf ▸ List.mem_cons_of_mem e hy)⟩
  done_nodup := h.done_nodup

/-- Entries are taken in the order of their weights. -/
theorem Settled.head_le (h : Settled links source w done floor) {e : FrontierEntry Exact}
    {rest : Frontier Exact} (hf : w.frontier = e :: rest) {x y : ℝ} (he : e.weight = .real x)
    {a : FrontierEntry Exact} (ha : a ∈ w.frontier) (hy : a.weight = .real y) : x ≤ y := by
  rw [hf] at ha
  obtain rfl | ha := List.mem_cons.1 ha
  · obtain rfl : x = y := by simpa [he] using hy
    exact le_rfl
  · have := (List.pairwise_cons.1 (hf ▸ h.sorted)).1 a ha
    simpa [he, hy] using this

/-- **A current entry settles its node.** -/
theorem Settled.settle (h : Settled links source w done floor) {e : FrontierEntry Exact}
    {rest : Frontier Exact} (hf : w.frontier = e :: rest) {y : ℝ} {t : Option β}
    (he : e.weight = .real y) (hx : w.label e.node = some (.real y, t)) :
    Settled links source { w with frontier := rest } (done ++ [e.node]) y ∧
      AtFloor { w with frontier := rest } (done ++ [e.node]) y e.node := by
  have hmem : e ∈ w.frontier := hf ▸ List.mem_cons_self
  have hfloor : floor ≤ y := by
    obtain ⟨_, y', _, hy', hle, -⟩ := h.entry e hmem
    obtain rfl : y = y' := by simpa [he] using hy'
    exact hle
  -- An entry of a settled node would have been overtaken.
  have hnew : e.node ∉ done := fun hd => by
    obtain ⟨x, _, hx', -, hafter⟩ := h.left _ hd
    obtain ⟨rfl, -⟩ : y = x ∧ _ := by simpa [hx] using hx'
    exact lt_irrefl y (hafter y (by rw [← he]; exact hmem))
  have hrest : ∀ {a}, a ∈ rest → a ∈ w.frontier := fun ha => hf ▸ List.mem_cons_of_mem e ha
  refine ⟨?_, by simp, t, hx⟩
  constructor
  case root => exact h.root
  case only_root => exact h.only_root
  case walk => exact h.walk
  case parent =>
    -- What has been settled so far comes before the node that is settled now.
    intro n a tag hn
    obtain ⟨p, hp, hbefore, hlink⟩ := h.parent hn
    refine ⟨p, by simp [hp], fun hmem => ?_, hlink⟩
    rw [List.idxOf_append_of_mem hp]
    by_cases hnd : n ∈ done
    · rw [List.idxOf_append_of_mem hnd]
      exact hbefore hnd
    · rw [List.idxOf_append_of_notMem hnd]
      exact Nat.lt_of_lt_of_le (List.idxOf_lt_length_of_mem hp) (Nat.le_add_right _ _)
  case entry =>
    intro a ha
    obtain ⟨x, z, s, hz, -, hlabel, hle⟩ := h.entry a (hrest ha)
    exact ⟨x, z, s, hz, h.head_le hf he (hrest ha) hz, hlabel, hle⟩
  case sorted => exact (List.pairwise_cons.1 (hf ▸ h.sorted)).2
  case nodup => exact (List.nodup_cons.1 (hf ▸ h.nodup)).2
  case pending =>
    intro n a t' hn hnd
    simp only [List.mem_append, List.mem_singleton, not_or] at hnd
    have := h.pending hn hnd.1
    rw [hf] at this
    obtain heq | this := List.mem_cons.1 this
    · exact absurd (congrArg FrontierEntry.node heq) hnd.2
    · exact this
  case left =>
    intro n hn
    by_cases hnd : n ∈ done
    · obtain ⟨x, s, hx', hle, hafter⟩ := h.left n hnd
      exact ⟨x, s, hx', hle.trans hfloor, fun z hz => hafter z (hrest hz)⟩
    · -- Entries of one node differ in their weights, and this was the least of them.
      obtain rfl : n = e.node := by simpa [hnd] using hn
      refine ⟨y, t, hx, le_rfl, fun z hz => lt_of_le_of_ne ?_ ?_⟩
      · exact h.head_le hf he (hrest hz) rfl
      · rintro rfl
        rw [← he] at hz
        exact (List.nodup_cons.1 (hf ▸ h.nodup)).1 hz
  case done_nodup =>
    refine List.nodup_append.2 ⟨h.done_nodup, by simp, ?_⟩
    rintro n hn _ hn' rfl
    exact hnew (List.mem_singleton.1 hn' ▸ hn)

end Wave

end RoadSplice

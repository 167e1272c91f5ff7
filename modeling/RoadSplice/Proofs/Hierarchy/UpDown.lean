/-
  RoadSplice.Proofs.Hierarchy.UpDown — walks that climb and then descend.

  Where every passage through a node has a way around it over higher nodes, every walk can be
  replaced by one that climbs to some node and descends from there, at no greater cost.  An edge
  is put in front of such a walk: if it descends while the walk goes on to climb, the way around
  the node between them takes their place, and its edges meet at higher nodes only.
-/
import RoadSplice.Proofs.Hierarchy.Bypass

namespace RoadSplice

open HierarchyEdge

variable {es : Array (HierarchyEdge Exact)} {level : NodeId → Nat}

/-! ## §1. Climbs and descents. -/

/-- An open edge to a higher node. -/
def UpStep (es : Array (HierarchyEdge Exact)) (level : NodeId → Nat) (u v : NodeId) (c : ℝ) :
    Prop :=
  ∃ f, Open es f ∧ f.base = u ∧ f.adj = v ∧ f.weightForward = .real c ∧ level u < level v

/-- An open edge from a higher node, taken backwards. -/
def DownStep (es : Array (HierarchyEdge Exact)) (level : NodeId → Nat) (u v : NodeId) (c : ℝ) :
    Prop :=
  ∃ f, Open es f ∧ f.adj = u ∧ f.base = v ∧ f.weightForward = .real c ∧ level u < level v

/-- A climb and a descent over one node, and what they cost together. -/
def UpDown (es : Array (HierarchyEdge Exact)) (level : NodeId → Nat) (s t : NodeId) (x : ℝ) :
    Prop :=
  ∃ m a b, Walk (UpStep es level) s m a ∧ Walk (DownStep es level) t m b ∧ x = a + b

/-- An open edge as a step of a walk. -/
def OpenStep (es : Array (HierarchyEdge Exact)) (u v : NodeId) (c : ℝ) : Prop :=
  ∃ f, Open es f ∧ f.base = u ∧ f.adj = v ∧ f.weightForward = .real c

/-- **What contraction provides**: levels tell the ends of an edge apart, and passages through a
node lead around it over higher nodes. -/
structure Leveled (es : Array (HierarchyEdge Exact)) (level : NodeId → Nat) (count : Nat) :
    Prop where
  lt : ∀ f, Open es f → level f.adj < count
  ne : ∀ f, Open es f → level f.base ≠ level f.adj
  nonneg : ∀ f, Open es f → ∀ c, f.weightForward = .real c → 0 ≤ c
  bypassed : ∀ f g, Open es f → Open es g → f.adj = g.base → level f.adj < level f.base →
    level f.adj < level g.adj →
      Bypassed es (fun n => level n ≤ level f.adj) (Arcs.arcFrom f) (Arcs.arcTo g)

/-- Levels matter at the ends of open edges only. -/
theorem Leveled.congr {level' : NodeId → Nat} {count : Nat} (h : Leveled es level count)
    (heq : ∀ f, Open es f → level f.base = level' f.base ∧ level f.adj = level' f.adj) :
    Leveled es level' count where
  lt f hf := (heq f hf).2 ▸ h.lt f hf
  ne f hf := by
    rw [← (heq f hf).1, ← (heq f hf).2]
    exact h.ne f hf
  nonneg := h.nonneg
  bypassed f g hf hg hjoin hbase hadj := by
    rw [← (heq f hf).2, ← (heq f hf).1] at hbase
    rw [← (heq f hf).2, ← (heq g hg).2] at hadj
    refine (h.bypassed f g hf hg hjoin hbase hadj).imp_right fun hway a b ha hb => ?_
    obtain ⟨x, hwalk, hle⟩ := hway a b ha hb
    refine ⟨x, hwalk.mono ?_, hle⟩
    rintro u v c ⟨k, hk, rfl, rfl, hc, hfree⟩
    refine ⟨k, hk, rfl, rfl, hc, ?_⟩
    show ¬ level' k.adj ≤ level' f.adj
    rwa [← (heq k hk).2, ← (heq f hf).2]

/-! ## §2. One edge in front. -/

/-- **An edge in front of a climb and a descent** is part of another, no dearer one. -/
theorem UpDown.cons {count : Nat} (h : Leveled es level count) {f : HierarchyEdge Exact}
    (hf : Open es f) {a : ℝ} (ha : f.weightForward = .real a) {t : NodeId} {y : ℝ}
    (hud : UpDown es level f.adj t y) : ∃ z, UpDown es level f.base t z ∧ z ≤ a + y := by
  -- Induction from the highest levels down: ways around lead over higher nodes.
  induction hk : count - level f.adj using Nat.strong_induction_on generalizing f a y with
  | _ k ih =>
    obtain ⟨m, x₁, x₂, hup, hdown, rfl⟩ := hud
    obtain hlt | hgt := lt_or_gt_of_ne (h.ne f hf)
    · exact ⟨_, ⟨m, a + x₁, x₂, .cons ⟨f, hf, rfl, rfl, ha, hlt⟩ hup, hdown, rfl⟩, by linarith⟩
    obtain ⟨hm, rfl⟩ | ⟨w, b, x₁, ⟨g, hg, hgv, rfl, hb, hlevel⟩, hrest, rfl⟩ := hup.nil_or_cons
    · rw [← hm] at hdown
      exact ⟨_, ⟨f.base, 0, x₂ + a, .nil _, hdown.snoc ⟨f, hf, rfl, rfl, ha, hgt⟩, rfl⟩,
        by linarith⟩
    · have hrestud : UpDown es level g.adj t (x₁ + x₂) := ⟨m, x₁, x₂, hrest, hdown, rfl⟩
      have ha0 := h.nonneg f hf a ha
      have hb0 := h.nonneg g hg b hb
      obtain heq | hway := h.bypassed f g hf hg hgv.symm hgt hlevel
      · have heq' : f.base = g.adj := heq
        exact ⟨_, heq' ▸ hrestud, by linarith⟩
      · obtain ⟨c, hwalk, hle⟩ := hway a b ha hb
        -- The edges of the way around go in front one by one, the last one first.
        have hfront : ∀ {u c}, Walk (HopStep es fun n => level n ≤ level f.adj) u g.adj c →
            ∃ z, UpDown es level u t z ∧ z ≤ c + (x₁ + x₂) := by
          intro u c hw
          generalize hend : g.adj = e at hw hrestud
          induction hw with
          | nil => exact ⟨_, hrestud, by linarith⟩
          | cons hs _ ihw =>
            obtain ⟨k', hk', rfl, rfl, hc, hfree⟩ := hs
            obtain ⟨z, hz, hzle⟩ := ihw hend hrestud
            have hhigher : count - level k'.adj < k := by
              have := h.lt k' hk'
              omega
            obtain ⟨z', hz', hzle'⟩ := ih _ hhigher hk' hc hz rfl
            exact ⟨z', hz', by linarith⟩
        obtain ⟨z, hz, hzle⟩ := hfront hwalk
        exact ⟨z, hz, by linarith⟩

/-- **Every walk can climb and descend** instead, at no greater cost. -/
theorem UpDown.of_walk {count : Nat} (h : Leveled es level count) {s t : NodeId} {x : ℝ}
    (hw : Walk (OpenStep es) s t x) : ∃ y, UpDown es level s t y ∧ y ≤ x := by
  induction hw with
  | nil n => exact ⟨0, ⟨n, 0, 0, .nil n, .nil n, by simp⟩, le_rfl⟩
  | cons hs _ ih =>
    obtain ⟨f, hf, rfl, rfl, ha⟩ := hs
    obtain ⟨y, hy, hle⟩ := ih
    obtain ⟨z, hz, hle'⟩ := hy.cons h hf ha
    exact ⟨z, hz, by linarith⟩

end RoadSplice

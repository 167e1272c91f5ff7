/-
  RoadSplice.Proofs.Search.Walk — walks, as lists of edges and as costs.

  `Joined` says that a list of edges leads from one node to another.  `Walk` forgets the edges
  and keeps what the walk costs in all; it is what searches are measured against.
-/
import Mathlib.Data.List.Chain
import Mathlib.Data.List.Forall2
import Mathlib.Data.Real.Basic
import Mathlib.Tactic.Linarith
import RoadSplice.Graph.Network
import RoadSplice.Proofs.Numeric.Order
import RoadSplice.Search.Path
import RoadSplice.Weighting.Basic

namespace RoadSplice

/-! ## §1. Lists of edges. -/

section Joined

variable {α β σ : Type} {base adj : α → σ}

/-- Edges in a row, each beginning where the one before it ends. -/
def Joined (base adj : α → σ) : σ → List α → σ → Prop
  | s, [], t => s = t
  | s, x :: xs, t => base x = s ∧ Joined base adj (adj x) xs t

theorem Joined.append {s m t : σ} {xs ys : List α} (hx : Joined base adj s xs m)
    (hy : Joined base adj m ys t) : Joined base adj s (xs ++ ys) t := by
  induction xs generalizing s with
  | nil =>
    obtain rfl : s = m := hx
    exact hy
  | cons x xs ih => exact ⟨hx.1, ih hx.2⟩

theorem Joined.exists_of_append {s t : σ} {xs ys : List α}
    (h : Joined base adj s (xs ++ ys) t) :
    ∃ m, Joined base adj s xs m ∧ Joined base adj m ys t := by
  induction xs generalizing s with
  | nil => exact ⟨s, rfl, h⟩
  | cons x xs ih =>
    obtain ⟨m, hx, hy⟩ := ih h.2
    exact ⟨m, ⟨h.1, hx⟩, hy⟩

/-- The last place that edges in a row come to. -/
theorem Joined.getLast?_eq {s t : σ} {xs : List α} (h : Joined base adj s xs t) :
    (s :: xs.map adj).getLast? = some t := by
  induction xs generalizing s with
  | nil => exact congrArg some h
  | cons x xs ih => exact (List.getLast?_cons_cons).trans (ih h.2)

/-- Edges that meet one after the other lead from the first one to the last one. -/
theorem joined_of_isChain {xs : List α} (h : xs.IsChain fun x y => adj x = base y)
    (hne : xs ≠ []) : Joined base adj (base (xs.head hne)) xs (adj (xs.getLast hne)) := by
  induction h with
  | nil => exact absurd rfl hne
  | singleton x => exact ⟨rfl, rfl⟩
  | @cons_cons x y xs hxy _ ih =>
    refine ⟨rfl, ?_⟩
    rw [hxy]
    exact ih (List.cons_ne_nil y xs)

/-- Edges in a row, read backwards. -/
theorem Joined.reverse {s t : σ} {xs : List α} (h : Joined base adj s xs t) :
    Joined adj base t xs.reverse s := by
  induction xs generalizing s with
  | nil => exact Eq.symm h
  | cons x xs ih =>
    rw [List.reverse_cons]
    exact (ih h.2).append ⟨rfl, h.1⟩

/-- **Replacing each edge by a row of edges** between the same nodes. -/
theorem Joined.flatten {base' adj' : β → σ} {s t : σ} {xs : List α}
    {yss : List (List β)} (h : Joined base adj s xs t)
    (hall : List.Forall₂ (fun x ys => Joined base' adj' (base x) ys (adj x)) xs yss) :
    Joined base' adj' s yss.flatten t := by
  induction hall generalizing s with
  | nil => exact h
  | cons hx _ ih =>
    obtain ⟨rfl, htail⟩ := h
    exact hx.append (ih htail)

theorem Joined.map {f : β → α} {s t : σ} {ys : List β} :
    Joined base adj s (ys.map f) t ↔ Joined (fun y => base (f y)) (fun y => adj (f y)) s ys t := by
  induction ys generalizing s with
  | nil => exact Iff.rfl
  | cons y ys ih => exact and_congr_right fun _ => ih

/-- **Edges in a row, told of their ends**: what is said of an end depends on the end only. -/
theorem Joined.through {τ : Type} {base' adj' : α → τ} (f : σ → τ) {s t : σ} {xs : List α}
    (h : Joined base adj s xs t) (hends : ∀ x ∈ xs, base' x = f (base x) ∧ adj' x = f (adj x)) :
    Joined base' adj' (f s) xs (f t) := by
  induction xs generalizing s with
  | nil => exact congrArg f h
  | cons x xs ih =>
    obtain ⟨rfl, htail⟩ := h
    obtain ⟨hbase, hadj⟩ := hends x List.mem_cons_self
    refine ⟨hbase, ?_⟩
    rw [hadj]
    exact ih htail fun y hy => hends y (List.mem_cons_of_mem x hy)

end Joined

/-- One step of a path. -/
structure Hop where
  base : NodeId
  adj : NodeId
  edge : EdgeId

/-- **A path of hops** of a kind, from node to node. -/
def Path.Hops {K : Type} (R : Hop → Prop) (s t : NodeId) (p : Path K) : Prop :=
  ∃ hops : List Hop, Joined (·.base) (·.adj) s hops t ∧ p.nodes = s :: hops.map (·.adj) ∧
    p.edges = hops.map (·.edge) ∧ ∀ x ∈ hops, R x

/-! ## §2. Costs. -/

/-- **A walk and its cost**, over steps with costs of their own. -/
inductive Walk (step : NodeId → NodeId → ℝ → Prop) : NodeId → NodeId → ℝ → Prop
  | nil (n : NodeId) : Walk step n n 0
  | cons {s m t : NodeId} {x y : ℝ} : step s m x → Walk step m t y → Walk step s t (x + y)

namespace Walk

variable {step step' : NodeId → NodeId → ℝ → Prop} {s m t : NodeId} {x y : ℝ}

theorem single (h : step s t x) : Walk step s t x := by
  simpa using Walk.cons h (Walk.nil t)

/-- A walk is empty or has a first step. -/
theorem nil_or_cons (h : Walk step s t x) :
    (s = t ∧ x = 0) ∨ ∃ m a b, step s m a ∧ Walk step m t b ∧ x = a + b := by
  cases h with
  | nil => exact .inl ⟨rfl, rfl⟩
  | cons hs hw => exact .inr ⟨_, _, _, hs, hw, rfl⟩

theorem trans (h : Walk step s m x) (h' : Walk step m t y) : Walk step s t (x + y) := by
  induction h with
  | nil n => simpa using h'
  | cons hstep _ ih =>
    rw [add_assoc]
    exact .cons hstep (ih h')

theorem snoc (h : Walk step s m x) (h' : step m t y) : Walk step s t (x + y) :=
  h.trans (single h')

/-- A walk of steps that may be replaced by walks of no greater cost. -/
theorem dominated (h : Walk step s t x)
    (hstep : ∀ {u v c}, step u v c → ∃ c', Walk step' u v c' ∧ c' ≤ c) :
    ∃ x', Walk step' s t x' ∧ x' ≤ x := by
  induction h with
  | nil n => exact ⟨0, .nil n, le_rfl⟩
  | cons hs _ ih =>
    obtain ⟨c, hc, hle⟩ := hstep hs
    obtain ⟨y, hy, hle'⟩ := ih
    exact ⟨c + y, hc.trans hy, add_le_add hle hle'⟩

theorem mono (h : Walk step s t x) (hstep : ∀ {u v c}, step u v c → step' u v c) :
    Walk step' s t x := by
  induction h with
  | nil n => exact .nil n
  | cons hs _ ih => exact .cons (hstep hs) ih

theorem nonneg (h : Walk step s t x) (hstep : ∀ {u v c}, step u v c → 0 ≤ c) : 0 ≤ x := by
  induction h with
  | nil n => exact le_rfl
  | cons hs _ ih => exact add_nonneg (hstep hs) ih

/-- A walk of steps that can be made at other costs. -/
theorem recost (h : Walk step s t x) (hstep : ∀ {u v c}, step u v c → ∃ c', step' u v c') :
    ∃ y, Walk step' s t y := by
  induction h with
  | nil n => exact ⟨0, .nil n⟩
  | cons hs _ ih =>
    obtain ⟨c', hs'⟩ := hstep hs
    obtain ⟨y, hy⟩ := ih
    exact ⟨c' + y, .cons hs' hy⟩

/-- What every step hands on, a walk hands on. -/
theorem preserves {P : NodeId → Prop} (h : Walk step s t x)
    (hstep : ∀ {u v c}, step u v c → P u → P v) (hs : P s) : P t := by
  induction h with
  | nil n => exact hs
  | cons hstep' _ ih => exact ih (hstep hstep' hs)

/-- A walk read backwards. -/
theorem reverse (h : Walk step s t x) : Walk (fun u v c => step v u c) t s x := by
  induction h with
  | nil n => exact .nil n
  | @cons s m t x y hs _ ih =>
    rw [add_comm]
    exact ih.snoc hs

/-- **A walk up to the first node of a kind**: either all its steps begin elsewhere, or a part of it
leads there. -/
theorem split {P : NodeId → Prop} (h : Walk step s t x)
    (hstep : ∀ {u v c}, step u v c → ¬ P u → step' u v c) :
    Walk step' s t x ∨ ∃ r a b, P r ∧ Walk step' s r a ∧ Walk step r t b ∧ x = a + b := by
  induction h with
  | nil n => exact .inl (.nil n)
  | @cons s m t x y hs hw ih =>
    by_cases hP : P s
    · exact .inr ⟨s, 0, x + y, hP, .nil s, .cons hs hw, by ring⟩
    · obtain hrest | ⟨r, a, b, hr, ha, hb, rfl⟩ := ih
      · exact .inl (.cons (hstep hs hP) hrest)
      · exact .inr ⟨r, x + a, b, hr, .cons (hstep hs hP) ha, hb, by ring⟩

/-- **Edges in a row are a walk** at their cost in all, if it is a number. -/
theorem of_total {α : Type} {base adj : α → NodeId} {cost : α → Exact} {xs : List α}
    (hsum : total (xs.map cost) = .real x) (h : Joined base adj s xs t)
    (hstep : ∀ e ∈ xs, ∀ c, cost e = .real c → step (base e) (adj e) c) : Walk step s t x := by
  induction xs generalizing s x with
  | nil =>
    obtain rfl : s = t := h
    obtain rfl : 0 = x := by simpa using hsum
    exact .nil s
  | cons e xs ih =>
    obtain ⟨rfl, htail⟩ := h
    rw [List.map_cons, Exact.total_cons] at hsum
    -- A sum is a number only if all its terms are.
    obtain ⟨⟨c, hc⟩, y, hy⟩ := (Exact.isReal_add _ _).1 ⟨x, hsum⟩
    rw [hc, hy, Exact.real_add, Exact.real.injEq] at hsum
    obtain rfl := hsum
    exact .cons (hstep e (by simp) c hc) (ih hy htail fun e he => hstep e (by simp [he]))

/-- The edges of a walk whose steps are edges. -/
theorem exists_joined {α : Type} {base adj : α → NodeId} {cost : α → Exact} {P : α → Prop}
    (h : Walk (fun u v c => ∃ e, P e ∧ base e = u ∧ adj e = v ∧ cost e = .real c) s t x) :
    ∃ xs : List α, Joined base adj s xs t ∧ (∀ e ∈ xs, P e) ∧ total (xs.map cost) = .real x := by
  induction h with
  | nil n => exact ⟨[], rfl, by simp, by simp⟩
  | cons hs _ ih =>
    obtain ⟨e, hP, rfl, rfl, hc⟩ := hs
    obtain ⟨xs, hj, hall, hsum⟩ := ih
    exact ⟨e :: xs, ⟨rfl, hj⟩, by simpa using ⟨hP, hall⟩, by simp [hc, hsum]⟩

end Walk

/-! ## §3. Walks of a graph. -/

section Network

variable {G : Type} [Network G Exact] {g : G} {w : Weighting Exact} {s t : NodeId}

/-- **A walk of a graph**: edges in a row, each offered by the node where it begins. -/
def IsWalk (g : G) (s : NodeId) (vs : List (EdgeView Exact)) (t : NodeId) : Prop :=
  Joined (·.base) (·.adj) s vs t ∧ ∀ v ∈ vs, v ∈ Network.edges g v.base

/-- The weight of a walk, turns apart. -/
noncomputable def walkWeight (w : Weighting Exact) (vs : List (EdgeView Exact)) : Exact :=
  total (vs.map (w.edgeWeight · false))

/-- An edge of finite weight as a step of a walk. -/
def EdgeStep (g : G) (w : Weighting Exact) (u v : NodeId) (c : ℝ) : Prop :=
  ∃ e ∈ Network.edges g u, e.adj = v ∧ w.edgeWeight e false = .real c

/-- **Walks as lists and walks as costs**, where nodes offer edges that begin there. -/
theorem walk_iff_isWalk (hbase : ∀ n, ∀ v ∈ Network.edges g n, v.base = n) {x : ℝ} :
    Walk (EdgeStep g w) s t x ↔ ∃ vs, IsWalk g s vs t ∧ walkWeight w vs = .real x := by
  constructor
  · intro h
    have hstep : Walk (fun u v c => ∃ e, e ∈ Network.edges g e.base ∧ e.base = u ∧ e.adj = v ∧
        w.edgeWeight e false = .real c) s t x := h.mono fun ⟨e, he, hadj, hc⟩ => by
      have hb := hbase _ e he
      exact ⟨e, hb.symm ▸ he, hb, hadj, hc⟩
    obtain ⟨vs, hj, hall, hsum⟩ := hstep.exists_joined
    exact ⟨vs, ⟨hj, hall⟩, hsum⟩
  · rintro ⟨vs, ⟨hj, hall⟩, hsum⟩
    exact Walk.of_total hsum hj fun e he c hc => ⟨e, hall e he, rfl, hc⟩

end Network

/-! ## §4. Least costs. -/

/-- **The cost of a shortest walk**; nothing when there is no walk. -/
def Shortest (step : NodeId → NodeId → ℝ → Prop) (s t : NodeId) : Option Exact → Prop
  | none => ∀ x, ¬ Walk step s t x
  | some a => ∃ x, a = .real x ∧ Walk step s t x ∧ ∀ y, Walk step s t y → x ≤ y

theorem Shortest.unique {step : NodeId → NodeId → ℝ → Prop} {s t : NodeId} {a b : Option Exact}
    (ha : Shortest step s t a) (hb : Shortest step s t b) : a = b := by
  cases a with
  | none =>
    cases b with
    | none => rfl
    | some b =>
      obtain ⟨x, -, hx, -⟩ := hb
      exact absurd hx (ha x)
  | some a =>
    obtain ⟨x, rfl, hx, hmin⟩ := ha
    cases b with
    | none => exact absurd hx (hb x)
    | some b =>
      obtain ⟨y, rfl, hy, hmin'⟩ := hb
      rw [le_antisymm (hmin y hy) (hmin' x hx)]

/-! ## §5. Shortest paths. -/

/-- A walk of finite weight leads from one node to the other. -/
def Reachable {G : Type} [Network G Exact] (g : G) (w : Weighting Exact) (s t : NodeId) : Prop :=
  ∃ vs, IsWalk g s vs t ∧ (walkWeight w vs).IsReal

/-- What can be reached is what a walk of some cost leads to. -/
theorem reachable_iff {G : Type} [Network G Exact] {g : G} {w : Weighting Exact} {s t : NodeId}
    (hbase : ∀ n, ∀ v ∈ Network.edges g n, v.base = n) :
    Reachable g w s t ↔ ∃ x, Walk (EdgeStep g w) s t x := by
  simp only [walk_iff_isWalk hbase, Reachable, Exact.IsReal]
  constructor
  · rintro ⟨vs, hvs, x, hx⟩
    exact ⟨x, vs, hvs, hx⟩
  · rintro ⟨x, vs, hvs, hx⟩
    exact ⟨vs, hvs, x, hx⟩

/-- **A shortest path**: it runs along a walk whose weight is its own, and no walk of finite
weight between the same nodes weighs less. -/
structure ShortestPath {G : Type} [Network G Exact] (g : G) (w : Weighting Exact) (s t : NodeId)
    (p : Path Exact) : Prop where
  walk : ∃ vs, IsWalk g s vs t ∧ p.nodes = s :: vs.map (·.adj) ∧ p.edges = vs.map (·.edge) ∧
    p.weight = walkWeight w vs
  finite : p.weight.IsReal
  least : ∀ us, IsWalk g s us t → (walkWeight w us).IsReal → p.weight ≤ walkWeight w us

end RoadSplice

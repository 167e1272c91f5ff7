/-
  RoadSplice.Proofs.Hierarchy.Table — tables of roads and shortcuts.

  A table grows from the roads of a graph by shortcuts, each for two edges in a row that the
  table has already.  Whatever edge of the table is open in the direction in which it is taken
  can be unpacked: it stands for open roads in a row between the same nodes, and weighs as much
  as they do together.
-/
import RoadSplice.Hierarchy.Route
import RoadSplice.Proofs.Search.Walk

namespace RoadSplice

namespace HierarchyEdge

/-! ## §1. Edges in a direction. -/

/-- An edge of a table, in either direction. -/
def InTable {K : Type} (es : Array (HierarchyEdge K)) (f : HierarchyEdge K) : Prop :=
  f ∈ es ∨ f.reversed ∈ es

/-- **An open edge**: no loop, and of finite weight in its own direction. -/
structure Open (es : Array (HierarchyEdge Exact)) (f : HierarchyEdge Exact) : Prop where
  inTable : InTable es f
  no_loop : f.base ≠ f.adj
  finite : f.weightForward.IsReal

/-- A shortcut for two edges in a row. -/
noncomputable def shortcut (id : EdgeId) (f₁ f₂ : HierarchyEdge Exact) : HierarchyEdge Exact :=
  { edge := id
    underlying := none
    base := f₁.base
    adj := f₂.adj
    skipped := some (f₁.edge, f₂.edge)
    weightForward := f₁.weightForward + f₂.weightForward
    weightBackward := Scalar.infinity
    millisForward := f₁.millisForward.plus f₂.millisForward
    millisBackward := Millis.unusable
    distance := f₁.distance + f₂.distance }

/-- Tables that grow from some roads. -/
inductive Grown (roads : Array (HierarchyEdge Exact)) : Array (HierarchyEdge Exact) → Prop
  | start : Grown roads roads
  | push {es f₁ f₂} : Grown roads es → Open es f₁ → Open es f₂ → f₁.adj = f₂.base →
      f₁.base ≠ f₂.adj → Grown roads (es.push (shortcut es.size f₁ f₂))

/-- The roads of a graph as a table: each is found at its number, and none is a shortcut. -/
structure RoadTable {K : Type} (roads : Array (HierarchyEdge K)) (nodeCount : Nat) : Prop where
  edge_eq : ∀ (i : Nat) (e : HierarchyEdge K), roads[i]? = some e → e.edge = i
  skipped_eq : ∀ e ∈ roads, e.skipped = none
  ends_lt : ∀ e ∈ roads, e.base < nodeCount ∧ e.adj < nodeCount

/-- No edge of a table weighs less than nothing. -/
def NonnegTable (es : Array (HierarchyEdge Exact)) : Prop :=
  ∀ f, InTable es f → ∀ c, f.weightForward = .real c → 0 ≤ c

variable {roads es : Array (HierarchyEdge Exact)} {nodeCount : Nat}

/-! ## §2. What shortcuts add. -/

/-- A table is read from either end. -/
theorem inTable_reversed {K : Type} {es : Array (HierarchyEdge K)} {f : HierarchyEdge K} :
    InTable es f.reversed ↔ InTable es f := by
  rw [InTable, reversed_reversed, or_comm]
  rfl

theorem inTable_push {K : Type} {es : Array (HierarchyEdge K)} {e f : HierarchyEdge K} :
    InTable (es.push e) f ↔ InTable es f ∨ f = e ∨ f.reversed = e := by
  simp only [InTable, Array.mem_push]
  tauto

/-- **A shortcut is open in one direction only.** -/
theorem open_push_shortcut {id : EdgeId} {f₁ f₂ f : HierarchyEdge Exact} (h₁ : Open es f₁)
    (h₂ : Open es f₂) (hne : f₁.base ≠ f₂.adj) :
    Open (es.push (shortcut id f₁ f₂)) f ↔ Open es f ∨ f = shortcut id f₁ f₂ := by
  constructor
  · rintro ⟨htable, hloop, hfin⟩
    obtain htable | rfl | hrev := inTable_push.1 htable
    · exact .inl ⟨htable, hloop, hfin⟩
    · exact .inr rfl
    · -- The other direction of a shortcut is closed.
      have hclosed : f.weightForward = .infinite false := congrArg weightBackward hrev
      simp [hclosed, Exact.IsReal] at hfin
  · rintro (hf | rfl)
    · exact ⟨inTable_push.2 (.inl hf.inTable), hf.no_loop, hf.finite⟩
    · exact ⟨inTable_push.2 (.inr (.inl rfl)), hne, (Exact.isReal_add _ _).2 ⟨h₁.finite, h₂.finite⟩⟩

/-- Open roads stay open. -/
theorem Grown.open_of_road (hg : Grown roads es) {f : HierarchyEdge Exact} (hf : Open roads f) :
    Open es f := by
  induction hg with
  | start => exact hf
  | push _ h₁ h₂ _ hne ih => exact (open_push_shortcut h₁ h₂ hne).2 (.inl ih)

theorem Grown.edge_eq (hg : Grown roads es) (hr : RoadTable roads nodeCount) {i : Nat}
    {e : HierarchyEdge Exact} (he : es[i]? = some e) : e.edge = i := by
  induction hg with
  | start => exact hr.edge_eq i e he
  | @push es f₁ f₂ _ _ _ _ _ ih =>
    rw [Array.getElem?_push] at he
    split at he
    · rename_i hi
      obtain rfl : shortcut es.size f₁ f₂ = e := by simpa using he
      exact hi.symm
    · exact ih he

theorem Grown.ends_lt (hg : Grown roads es) (hr : RoadTable roads nodeCount)
    {f : HierarchyEdge Exact} (hf : InTable es f) : f.base < nodeCount ∧ f.adj < nodeCount := by
  induction hg generalizing f with
  | start =>
    obtain hf | hf := hf
    · exact hr.ends_lt f hf
    · exact (hr.ends_lt _ hf).symm
  | @push es f₁ f₂ _ h₁ h₂ _ _ ih =>
    obtain hf | rfl | hf := inTable_push.1 hf
    · exact ih hf
    · exact ⟨(ih h₁.inTable).1, (ih h₂.inTable).2⟩
    · have hbase : f.adj = f₁.base := congrArg base hf
      have hadj : f.base = f₂.adj := congrArg adj hf
      rw [hbase, hadj]
      exact ⟨(ih h₂.inTable).2, (ih h₁.inTable).1⟩

theorem Grown.nonneg (hg : Grown roads es) (hn : NonnegTable roads) {f : HierarchyEdge Exact}
    (hf : Open es f) {c : ℝ} (hc : f.weightForward = .real c) : 0 ≤ c := by
  induction hg generalizing f c with
  | start => exact hn f hf.inTable c hc
  | @push es f₁ f₂ _ h₁ h₂ _ hne ih =>
    obtain hf | rfl := (open_push_shortcut h₁ h₂ hne).1 hf
    · exact ih hf hc
    · obtain ⟨x, hx⟩ := h₁.finite
      obtain ⟨y, hy⟩ := h₂.finite
      have hsum : x + y = c := by simpa [shortcut, hx, hy] using hc
      rw [← hsum]
      exact add_nonneg (ih h₁ hx) (ih h₂ hy)

theorem Grown.size_le (hg : Grown roads es) : roads.size ≤ es.size := by
  induction hg with
  | start => exact le_rfl
  | push _ _ _ _ _ ih =>
    rw [Array.size_push]
    exact ih.trans (Nat.le_succ _)

/-- **A shortcut passes a third node**, so between two nodes there is none. -/
theorem Grown.eq_of_two (hg : Grown roads es) (hr : RoadTable roads nodeCount)
    (hn : nodeCount ≤ 2) : es = roads := by
  cases hg with
  | start => rfl
  | @push es f₁ f₂ hg h₁ h₂ hjoin hne =>
    obtain ⟨hbase, hpassed⟩ := hg.ends_lt hr h₁.inTable
    have hadj := (hg.ends_lt hr h₂.inTable).2
    have hfirst : f₁.base ≠ f₂.base := hjoin ▸ h₁.no_loop
    have hsecond := h₂.no_loop
    rw [hjoin] at hpassed
    have hthree : ∀ a b c : Nat, a < nodeCount → b < nodeCount → c < nodeCount → a ≠ b → b ≠ c →
        a ≠ c → False := by
      intro a b c
      omega
    exact (hthree _ _ _ hbase hpassed hadj hfirst hsecond hne).elim

/-- A road is no shortcut from either end. -/
theorem RoadTable.skipped_inTable (hr : RoadTable roads nodeCount) {f : HierarchyEdge Exact}
    (hf : InTable roads f) : f.skipped = none := by
  obtain hf | hf := hf
  · exact hr.skipped_eq f hf
  · simpa [reversed] using hr.skipped_eq _ hf

/-- **An edge is a road or a shortcut**, and a shortcut has no edge of the graph below it. -/
theorem Grown.road_or_shortcut (hg : Grown roads es) {f : HierarchyEdge Exact}
    (hf : InTable es f) : InTable roads f ∨ f.underlying = none := by
  induction hg with
  | start => exact .inl hf
  | push _ _ _ _ _ ih =>
    obtain hf | rfl | hf := inTable_push.1 hf
    · exact ih hf
    · exact .inr rfl
    · exact .inr (congrArg underlying hf)

/-- An edge taken in a direction is stored under its number, in one direction or the other. -/
theorem Grown.stored (hg : Grown roads es) (hr : RoadTable roads nodeCount)
    {f : HierarchyEdge Exact} (hf : InTable es f) :
    ∃ e, es[f.edge]? = some e ∧ (e = f ∨ e = f.reversed) := by
  obtain hf | hf := hf
  · obtain ⟨i, hi⟩ := Array.mem_iff_getElem?.1 hf
    obtain rfl : f.edge = i := hg.edge_eq hr hi
    exact ⟨f, hi, .inl rfl⟩
  · obtain ⟨i, hi⟩ := Array.mem_iff_getElem?.1 hf
    have hid : f.reversed.edge = i := hg.edge_eq hr hi
    obtain rfl : f.edge = i := hid
    exact ⟨f.reversed, hi, .inr rfl⟩

/-! ## §3. Unpacking. -/

theorem leavingFrom_eq {e f : HierarchyEdge Exact} (h : e = f ∨ e = f.reversed)
    (hf : f.base ≠ f.adj) : RoutingHierarchy.leavingFrom e f.base = f := by
  unfold RoutingHierarchy.leavingFrom
  obtain rfl | rfl := h
  · exact if_pos rfl
  · rw [if_neg fun heq => hf heq.symm, reversed_reversed]

/-- **What edges in a row come to**, one at least: they weigh together what one edge weighs, they are
as long, and their times add up to its time as far as times can be counted. -/
structure SumsTo (p : HierarchyEdge Exact) (ps : List (HierarchyEdge Exact))
    (f : HierarchyEdge Exact) : Prop where
  weight : total ((p :: ps).map (·.weightForward)) = f.weightForward
  distance : total ((p :: ps).map (·.distance)) = f.distance
  millis : (ps.map (·.millisForward)).foldl Millis.plus p.millisForward = f.millisForward

theorem SumsTo.single (f : HierarchyEdge Exact) : SumsTo f [] f where
  weight := by simp
  distance := by simp
  millis := rfl

/-- **A shortcut comes to what its two edges come to.** -/
theorem SumsTo.shortcut {p q f₁ f₂ : HierarchyEdge Exact} {ps qs : List (HierarchyEdge Exact)}
    (h₁ : SumsTo p ps f₁) (h₂ : SumsTo q qs f₂) (id : EdgeId) :
    SumsTo p (ps ++ q :: qs) (shortcut id f₁ f₂) where
  weight := by
    rw [← List.cons_append, List.map_append, Exact.total_append, h₁.weight, h₂.weight]
    rfl
  distance := by
    rw [← List.cons_append, List.map_append, Exact.total_append, h₁.distance, h₂.distance]
    rfl
  millis := by
    rw [List.map_append, List.foldl_append, h₁.millis, List.map_cons, List.foldl_cons,
      List.foldl_assoc, h₂.millis]
    rfl

/-- **Every open edge can be unpacked** into open roads in a row that come to the same together.
Fuel as large as its number is enough. -/
theorem Grown.unpack (hg : Grown roads es) (hr : RoadTable roads nodeCount)
    {h : RoutingHierarchy Exact} (hlookup : ∀ (i : Nat) e, es[i]? = some e → h.edge i none = .ok e)
    {f : HierarchyEdge Exact} (hf : Open es f) :
    ∃ p ps, (∀ fuel, f.edge ≤ fuel → h.unpack fuel f = .ok (p :: ps)) ∧
      Joined (·.base) (·.adj) f.base (p :: ps) f.adj ∧ (∀ q ∈ p :: ps, Open roads q) ∧
      SumsTo p ps f := by
  induction hg generalizing f with
  | start =>
    refine ⟨f, [], fun fuel _ => ?_, ⟨rfl, rfl⟩, by simpa using hf, .single f⟩
    unfold RoutingHierarchy.unpack
    rw [hr.skipped_inTable hf.inTable]
  | @push es f₁ f₂ hg h₁ h₂ hjoin hne ih =>
    have hlookup' : ∀ (i : Nat) e, es[i]? = some e → h.edge i none = .ok e := fun i e he => by
      refine hlookup i e ?_
      have hi := (Array.getElem?_eq_some_iff.1 he).1
      rw [Array.getElem?_push, if_neg hi.ne]
      exact he
    obtain hf | rfl := (open_push_shortcut h₁ h₂ hne).1 hf
    · exact ih hlookup' hf
    -- A shortcut stands behind both edges that it skips, so they need less fuel than it does.
    obtain ⟨e₁, he₁, hor₁⟩ := hg.stored hr h₁.inTable
    obtain ⟨e₂, he₂, hor₂⟩ := hg.stored hr h₂.inTable
    have hlt₁ : f₁.edge < es.size := (Array.getElem?_eq_some_iff.1 he₁).1
    have hlt₂ : f₂.edge < es.size := (Array.getElem?_eq_some_iff.1 he₂).1
    obtain ⟨p, ps, hp, hj₁, hopen₁, hsum₁⟩ := ih hlookup' h₁
    obtain ⟨q, qs, hq, hj₂, hopen₂, hsum₂⟩ := ih hlookup' h₂
    refine ⟨p, ps ++ q :: qs, fun fuel hfuel => ?_, ?_, fun k hk => ?_, hsum₁.shortcut hsum₂ es.size⟩
    · have hfuel' : es.size ≤ fuel := hfuel
      obtain ⟨fuel, rfl⟩ := Nat.exists_eq_add_one.2 (Nat.zero_lt_of_lt (hlt₁.trans_le hfuel'))
      -- The table holds each edge in one direction; it is turned to leave from where the way is.
      have hl₁ := leavingFrom_eq hor₁ h₁.no_loop
      have hl₂ := leavingFrom_eq hor₂ h₂.no_loop
      rw [← hjoin] at hl₂
      show (do
        let first := RoutingHierarchy.leavingFrom (← h.edge f₁.edge none) f₁.base
        let second := RoutingHierarchy.leavingFrom (← h.edge f₂.edge none) first.adj
        return (← h.unpack fuel first) ++ (← h.unpack fuel second)) = _
      simp only [hlookup' _ _ he₁, hlookup' _ _ he₂, bind, Except.bind, hl₁, hl₂,
        hp fuel (Nat.le_of_lt_succ (hlt₁.trans_le hfuel')),
        hq fuel (Nat.le_of_lt_succ (hlt₂.trans_le hfuel'))]
      rfl
    · rw [← hjoin] at hj₂
      exact hj₁.append hj₂
    · rw [← List.cons_append, List.mem_append] at hk
      exact hk.elim (hopen₁ k) (hopen₂ k)

end HierarchyEdge

end RoadSplice

/-
  RoadSplice.Proofs.Hierarchy.Bypass — ways around a contracted node.

  What a search for a witness reports has been walked, and that the search gives up early only
  means that it reports less.  With a witness or with a new shortcut, the passage through a node
  has a way around it over nodes that are contracted later.
-/
import RoadSplice.Proofs.Hierarchy.Listing
import RoadSplice.Proofs.Hierarchy.WitnessRuns

namespace RoadSplice

open HierarchyEdge

/-! ## §1. Ways over arcs of real weights. -/

/-- A way over arcs that are steps of a walk is a walk. -/
theorem Way.walk {arcs : NodeId → List (Arc Exact)} {blocked : NodeId → Bool}
    {step : NodeId → NodeId → ℝ → Prop}
    (hstep : ∀ u, ∀ a ∈ arcs u, blocked a.node = false →
      ∃ c, a.weight = .real c ∧ step u a.node c)
    {source n : NodeId} {w : Exact} (h : Way arcs blocked source n w) :
    ∃ x, w = .real x ∧ Walk step source n x := by
  induction h with
  | here => exact ⟨0, Exact.zero_eq, .nil source⟩
  | @onward u w a _ ha hopen ih =>
    obtain ⟨x, rfl, hwalk⟩ := ih
    obtain ⟨c, hc, hnext⟩ := hstep u a ha hopen
    exact ⟨x + c, by rw [hc, Exact.real_add], hwalk.snoc hnext⟩

/-! ## §2. Ways around. -/

/-- An open edge to a node outside some set, as a step of a walk. -/
def HopStep (es : Array (HierarchyEdge Exact)) (B : NodeId → Prop) (u v : NodeId) (c : ℝ) : Prop :=
  ∃ f, Open es f ∧ f.base = u ∧ f.adj = v ∧ f.weightForward = .real c ∧ ¬ B v

/-- **A passage has a way around**: from where it enters to where it leaves, past none of the
nodes of a set, at no more than its weight. -/
def Bypassed (es : Array (HierarchyEdge Exact)) (B : NodeId → Prop) (enter leave : Arc Exact) :
    Prop :=
  enter.node = leave.node ∨ ∀ a b, enter.weight = .real a → leave.weight = .real b →
    ∃ x, Walk (HopStep es B) enter.node leave.node x ∧ x ≤ a + b

theorem Bypassed.mono {es es' : Array (HierarchyEdge Exact)} {B : NodeId → Prop}
    {enter leave : Arc Exact} (h : Bypassed es B enter leave)
    (hes : ∀ f, Open es f → Open es' f) : Bypassed es' B enter leave := by
  refine h.imp_right fun h a b ha hb => ?_
  obtain ⟨x, hwalk, hle⟩ := h a b ha hb
  exact ⟨x, hwalk.mono fun ⟨f, hf, hrest⟩ => ⟨f, hes f hf, hrest⟩, hle⟩

/-- A witness is a way around. -/
theorem bypassed_of_witness {es : Array (HierarchyEdge Exact)} {nodeCount : Nat}
    {arcs : Arcs Exact} (hm : Mirrors Arcs.arcTo Arcs.arcFrom nodeCount es arcs.tables)
    {contracted : NodeId → Bool} {node : NodeId} {B : NodeId → Prop}
    (hB : ∀ n, B n ↔ n = node ∨ contracted n = true) {enter leave : Arc Exact}
    (henter : ¬ B enter.node)
    (hwitness : ∀ a b, enter.weight = .real a → leave.weight = .real b →
      hasWitness arcs contracted enter.node leave.node node (.real (a + b)) = true) :
    Bypassed es B enter leave := by
  right
  intro a b ha hb
  have hblocked : ∀ n, (n == node || contracted n) = false ↔ ¬ B n := by
    intro n
    rw [hB, not_or, Bool.or_eq_false_iff, beq_eq_false_iff_ne, Bool.not_eq_true]
  obtain ⟨w, hway, hle⟩ :=
    WitnessSearch.way_of_hasWitness ((hblocked _).2 henter) (hwitness a b ha hb)
  -- Every arc of the way is an open edge, so that the way weighs a real number.
  have hstep : ∀ u, ∀ arc ∈ arcs.outOf u, (arc.node == node || contracted arc.node) = false →
      ∃ c, arc.weight = .real c ∧ HopStep es B u arc.node c := by
    intro u arc harc hopen
    obtain ⟨f, hf, rfl, rfl⟩ := (hm.mem_out u arc).1 harc
    obtain ⟨c, hc⟩ := hf.finite
    exact ⟨c, hc, f, hf, rfl, rfl, hc, (hblocked _).1 hopen⟩
  obtain ⟨x, rfl, hwalk⟩ := hway.walk hstep
  exact ⟨x, hwalk, not_lt.1 hle⟩

end RoadSplice

/-
  RoadSplice.Proofs.Fixture.Accepted — which documents make a graph.

  A graph is made by edits one after the other, and each edit is refused or not for a reason that
  can be told beforehand: from what it is given, and from how many nodes and roads there are.  So
  a document is accepted exactly when its positions lie on the globe, its roads end at nodes of the
  document and have a speed that can be stored, and its turns are between roads of the document.
  Lengths and costs that are given are taken as they are.
-/
import RoadSplice.Proofs.Fixture.Edits

namespace RoadSplice

variable {K : Type} [Scalar K]

/-! ## §1. Documents in order. -/

/-- **What a road needs**: ends that exist, inner points on the globe, and a speed that can be
stored.  Its length is not looked at. -/
structure RoadInOrder (is3d : Bool) (nodes : Nat) (e : EdgeFixture K) : Prop where
  source : e.source < nodes
  target : e.target < nodes
  pillars : ∀ p ∈ e.pillars, ∃ q, p.toPoint is3d = .ok q
  speed : ∃ n, (VehicleEncoding.registered : VehicleEncoding K).speed.toRaw e.speed = .ok n

/-- **A document in order.**  Neither a given length nor a given cost of a turn is looked at, nor is
an elevation. -/
structure Fixture.InOrder (f : Fixture K) : Prop where
  nodes : ∀ p ∈ f.nodes, ∃ q, p.toPoint f.elevation = .ok q
  roads : ∀ e ∈ f.edges, RoadInOrder f.elevation f.nodes.length e
  turns : ∀ t ∈ f.turns, t.turn.inEdge < f.edges.length ∧ t.turn.outEdge < f.edges.length

/-- A position passes its check when it makes a point. -/
theorem PointFixture.check_holds_iff (p : PointFixture K) (is3d : Bool) :
    p.check.holds ↔ ∃ q, p.toPoint is3d = .ok q := by
  constructor
  · intro h
    exact ⟨_, if_pos h⟩
  · rintro ⟨q, hq⟩
    unfold toPoint at hq
    split at hq
    · assumption
    · cases hq

namespace Fixture

omit [Scalar K] in
/-- **Nothing is wrong** with a document when nothing is wrong with its nodes, roads and turns. -/
theorem allHold_inspect (position : PointFixture K → Check K) (speed : EdgeFixture K → Check K)
    (f : Fixture K) : AllHold (f.inspect position speed) ↔
      (∀ p ∈ f.nodes, (position p).holds) ∧
      (∀ e ∈ f.edges, (e.source < f.nodes.length ∧ e.target < f.nodes.length) ∧
        (∀ p ∈ e.pillars, (position p).holds) ∧ (speed e).holds) ∧
      ∀ t ∈ f.turns, t.turn.inEdge < f.edges.length ∧ t.turn.outEdge < f.edges.length := by
  unfold inspect EdgeFixture.inspect TurnFixture.inspect
  simp only [allHold_append, allHold_flatMap, and_assoc]
  simp [AllHold, and_assoc]

theorem allHold_checks_iff (f : Fixture K) : AllHold f.checks ↔ f.InOrder := by
  rw [checks, allHold_inspect]
  constructor
  · rintro ⟨hnodes, hroads, hturns⟩
    refine ⟨fun p hp => (p.check_holds_iff _).1 (hnodes p hp), fun e he => ?_, hturns⟩
    obtain ⟨⟨hsource, htarget⟩, hpillars, hspeed⟩ := hroads e he
    exact ⟨hsource, htarget, fun p hp => (p.check_holds_iff _).1 (hpillars p hp), hspeed⟩
  · intro h
    refine ⟨fun p hp => (p.check_holds_iff _).2 (h.nodes p hp), fun e he => ?_, h.turns⟩
    have hroad := h.roads e he
    exact ⟨⟨hroad.source, hroad.target⟩,
      fun p hp => (p.check_holds_iff _).2 (hroad.pillars p hp), hroad.speed⟩

/-! ## §2. Building. -/

/-- A document is built by its edits, on an empty graph. -/
theorem build_eq (f : Fixture K) :
    f.build = match (f.edits .registered).run.run (.empty f.elevation) with
      | (.ok (), g) => .ok (g, .registered)
      | (.error e, _) => .error e := by
  unfold build
  rw [VehicleEncoding.register_empty]
  rfl

/-- The graph of a document is what its edits leave behind. -/
theorem build_eq_ok {f : Fixture K} {g : RoadGraph K} {car : VehicleEncoding K} :
    f.build = .ok (g, car) ↔
      car = .registered ∧ (f.edits .registered).run.run (.empty f.elevation) = (.ok (), g) := by
  rw [f.build_eq]
  rcases (f.edits .registered).run.run (.empty f.elevation) with ⟨e | u, g'⟩
  · refine iff_of_false ?_ ?_
    · rintro ⟨⟩
    · rintro ⟨-, ⟨⟩⟩
  · constructor
    · rintro ⟨⟩
      exact ⟨rfl, rfl⟩
    · rintro ⟨rfl, ⟨⟩⟩
      rfl

/-- **What comes of a document**: the graph of what it says, or the first thing that is wrong. -/
theorem build_cases (f : Fixture K) :
    (AllHold f.checks ∧ ∃ g, f.build = .ok (g, .registered) ∧ g.stripped = f.drawn) ∨
      ∃ e, FirstViolation f.checks e ∧ f.build = .error e := by
  rw [f.build_eq]
  obtain ⟨hall, g, hrun, hdrawn⟩ | ⟨e, g, hfirst, hrun⟩ := makes_edits f _ rfl
  · rw [hrun]
    exact .inl ⟨hall, g, rfl, hdrawn⟩
  · rw [hrun]
    exact .inr ⟨e, hfirst, rfl⟩

/-- **A document is accepted exactly when it is in order.** -/
theorem build_isOk_iff (f : Fixture K) :
    (∃ g car, f.build = .ok (g, car)) ↔ f.InOrder := by
  rw [← allHold_checks_iff]
  obtain ⟨hall, g, hbuild, -⟩ | ⟨e, hfirst, hbuild⟩ := f.build_cases
  · exact iff_of_true ⟨g, _, hbuild⟩ hall
  · refine iff_of_false ?_ hfirst.not_allHold
    rintro ⟨g, car, hok⟩
    rw [hbuild] at hok
    cases hok

end Fixture

end RoadSplice

/-
  RoadSplice.Proofs.Graph.Refused — what a refused change of a road graph leaves behind.

  A change that names a node or a road is refused when there is none of that number.  Nodes, roads,
  the lists at the nodes, flag words and turn costs are as before then, and so are the bounds,
  with one exception: inner points widen the bounds before the road is looked up, so that the
  points of a refused change stay inside them.
-/
import RoadSplice.Proofs.Graph.Built
import RoadSplice.Proofs.Numeric.Order
import RoadSplice.Proofs.Results

namespace RoadSplice

namespace RoadGraph

variable {K : Type}

/-! ## §1. Calls that may be refused. -/

/-- A change that names nodes or a road. -/
inductive Call (K : Type) where
  | addEdge (a b : NodeId) (distance : K)
  | setPillars (edge : EdgeId) (pillars : Polyline K)
  | setName (edge : EdgeId) (name : String)
  | setDistance (edge : EdgeId) (distance : K)

namespace Call

/-- The change itself. -/
def perform [Scalar K] : Call K → Edit K Unit
  | addEdge a b d => do
    let _ ← RoadGraph.addEdge a b d
  | setPillars edge s => RoadGraph.setPillars edge s
  | setName edge name => RoadGraph.setName edge name
  | setDistance edge d => RoadGraph.setDistance edge d

/-- The road that is to be changed. -/
def road? : Call K → Option EdgeId
  | addEdge _ _ _ => none
  | setPillars edge _ | setName edge _ | setDistance edge _ => some edge

/-- The points that come with a call. -/
def points : Call K → List (Point K)
  | setPillars _ s => s.points
  | _ => []

end Call

/-- **Why a call is refused**: the first of its nodes that does not exist, or its road. -/
inductive Refuses (g : RoadGraph K) : Call K → Error K → Prop
  | first {a b : NodeId} {d : K} (ha : g.nodeCount ≤ a) :
    Refuses g (.addEdge a b d) (.nodeNotFound a)
  | second {a b : NodeId} {d : K} (ha : a < g.nodeCount) (hb : g.nodeCount ≤ b) :
    Refuses g (.addEdge a b d) (.nodeNotFound b)
  | road {c : Call K} {edge : EdgeId} (hc : c.road? = some edge) (h : g.edgeCount ≤ edge) :
    Refuses g c (.edgeNotFound edge)

/-- The graph with bounds that hold some more points. -/
def widened [Scalar K] (g : RoadGraph K) (ps : List (Point K)) : RoadGraph K :=
  { g with bounds := ps.foldl (fun b p => b.extend p.lat p.lon) g.bounds }

/-! ## §2. What comes of a call. -/

/-- Changing a road fails exactly when there is none of that number, and then does nothing. -/
theorem modifyRoad_refused_iff {edge : EdgeId} {change : Road K → Road K} {g g' : RoadGraph K}
    {e : Error K} :
    (modifyRoad edge change).run.run g = (.error e, g') ↔
      (g.edgeCount ≤ edge ∧ e = .edgeNotFound edge) ∧ g' = g := by
  rw [run_modifyRoad]
  by_cases h : edge < g.edgeCount
  · rw [if_pos h]
    apply iff_of_false
    · intro heq
      cases congrArg Prod.fst heq
    · intro hrefused
      exact absurd h (Nat.not_lt.2 hrefused.1.1)
  · rw [if_neg h]
    constructor
    · intro heq
      cases heq
      exact ⟨⟨Nat.not_lt.1 h, rfl⟩, rfl⟩
    · rintro ⟨⟨-, rfl⟩, rfl⟩
      rfl

/-- A call that names a road is refused exactly when the road is missing. -/
theorem refuses_iff_of_road {c : Call K} {edge : EdgeId} (hc : c.road? = some edge)
    {g : RoadGraph K} {e : Error K} :
    g.Refuses c e ↔ g.edgeCount ≤ edge ∧ e = .edgeNotFound edge := by
  constructor
  · intro h
    cases h with
    | first _ => cases hc
    | second _ _ => cases hc
    | road hc' hle =>
      obtain rfl : _ = edge := Option.some.inj (hc'.symm.trans hc)
      exact ⟨hle, rfl⟩
  · rintro ⟨hle, rfl⟩
    exact .road hc hle

variable [Scalar K]

/-- **A refused call leaves the graph as it was, but for the bounds**, which its points have
widened: no node, road, list at a node, flag word or turn cost has changed, and nothing at all
where the call brings no points. -/
theorem refused_call_leaves (c : Call K) (g g' : RoadGraph K) (e : Error K) :
    c.perform.run.run g = (.error e, g') ↔ g.Refuses c e ∧ g' = g.widened c.points := by
  cases c with
  | addEdge a b d =>
    show ((addEdge a b d >>= fun _ => pure ()) : Edit K Unit).run.run g = _ ↔ _ ∧ g' = g
    rw [run_bind, run_addEdge]
    constructor
    · intro h
      by_cases ha : g.nodeCount ≤ a
      · rw [if_pos ha] at h
        cases h
        exact ⟨.first ha, rfl⟩
      · by_cases hb : g.nodeCount ≤ b
        · rw [if_neg ha, if_pos hb] at h
          cases h
          exact ⟨.second (Nat.not_le.1 ha) hb, rfl⟩
        · rw [if_neg ha, if_neg hb] at h
          cases congrArg Prod.fst h
    · rintro ⟨hrefuses, rfl⟩
      cases hrefuses with
      | first ha => rw [if_pos ha]
      | second ha hb => rw [if_neg (Nat.not_le.2 ha), if_pos hb]
      | road hc _ => cases hc
  | setPillars edge s =>
    rw [refuses_iff_of_road (show (Call.setPillars edge s).road? = some edge from rfl)]
    -- The bounds are widened first; what follows is a change of a road of that graph.
    exact modifyRoad_refused_iff (g := g.widened s.points)
  | setName edge name =>
    rw [refuses_iff_of_road (show (Call.setName (K := K) edge name).road? = some edge from rfl)]
    exact modifyRoad_refused_iff
  | setDistance edge d =>
    rw [refuses_iff_of_road (show (Call.setDistance edge d).road? = some edge from rfl)]
    exact modifyRoad_refused_iff

end RoadGraph

/-! ## §3. Refused points stay inside the bounds. -/

namespace Bounds

open Exact

theorem contains_iff (b : Bounds Exact) (lat lon : Exact) :
    b.contains lat lon = true ↔
      (b.minLat ≤ lat ∧ lat ≤ b.maxLat) ∧ (b.minLon ≤ lon ∧ lon ≤ b.maxLon) := by
  simp [contains, Scalar.within]

/-- A widened rectangle holds the new position and every one it held before. -/
theorem contains_extend {b : Bounds Exact} {p : Point Exact} {lat lon : ℝ}
    (h : b.contains (real lat) (real lon) = true ∨ (p.lat = real lat ∧ p.lon = real lon)) :
    (b.extend p.lat p.lon).contains (real lat) (real lon) = true := by
  rw [contains_iff] at h ⊢
  exact ⟨⟨least_le _ _ (h.imp (·.1.1) (·.1)), le_most _ _ (h.imp (·.1.2) (·.1))⟩,
    least_le _ _ (h.imp (·.2.1) (·.2)), le_most _ _ (h.imp (·.2.2) (·.2))⟩

/-- A rectangle widened by some points holds each of them. -/
theorem contains_foldl_extend (ps : List (Point Exact)) {b : Bounds Exact} {lat lon : ℝ}
    (h : b.contains (real lat) (real lon) = true ∨
      ∃ p ∈ ps, p.lat = real lat ∧ p.lon = real lon) :
    (ps.foldl (fun b p => b.extend p.lat p.lon) b).contains (real lat) (real lon) = true := by
  induction ps generalizing b with
  | nil => exact h.resolve_right (by simp)
  | cons q ps ih =>
    apply ih
    obtain h | ⟨p, hp, hat⟩ := h
    · exact .inl (contains_extend (.inl h))
    · obtain rfl | hp := List.mem_cons.1 hp
      · exact .inl (contains_extend (.inr hat))
      · exact .inr ⟨p, hp, hat⟩

end Bounds

namespace RoadGraph

open Exact

/-- **Inner points for a road that does not exist** change the graph whenever one of them lies
outside its bounds. -/
theorem after_setPillars_ne {g : RoadGraph Exact} {edge : EdgeId} (hedge : g.edgeCount ≤ edge)
    (s : Polyline Exact) {p : Point Exact} (hp : p ∈ s.points) {lat lon : ℝ}
    (hlat : p.lat = real lat) (hlon : p.lon = real lon)
    (hout : g.bounds.contains (real lat) (real lon) = false) :
    (after (setPillars edge s) g).bounds.contains (real lat) (real lon) = true ∧
      after (setPillars edge s) g ≠ g := by
  have hrun := (refused_call_leaves (.setPillars edge s) g _ _).2 ⟨.road rfl hedge, rfl⟩
  have hafter : after (setPillars edge s) g = g.widened s.points := congrArg Prod.snd hrun
  have hin : (g.widened s.points).bounds.contains (real lat) (real lon) = true :=
    Bounds.contains_foldl_extend s.points (.inr ⟨p, hp, hlat, hlon⟩)
  rw [hafter]
  refine ⟨hin, fun heq => ?_⟩
  rw [heq, hout] at hin
  cases hin

end RoadGraph

end RoadSplice

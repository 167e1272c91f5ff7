/-
  RoadSplice.Proofs.Fixture.Built — graphs of documents are made by changes.

  What every change that a document asks for keeps, the graph of the document has: the changes are
  made one after the other, each on the graph that those before it have left, and what is read of
  the graph on the way is read of such a graph.  In particular the graph is a built one.
-/
import Mathlib.Data.List.Forall2
import RoadSplice.Proofs.Fixture.Accepted

namespace RoadSplice

open RoadGraph (after)

/-! ## §1. What an edit keeps. -/

section Keeping

variable {K α β : Type} {P : RoadGraph K → Prop}

/-- **An edit keeps a property** of graphs, also when it is refused. -/
def Keeps (P : RoadGraph K → Prop) (x : Edit K α) : Prop := ∀ g, P g → P (after x g)

theorem after_edit_bind (x : Edit K α) (f : α → Edit K β) (g : RoadGraph K) :
    after (x >>= f) g = match x.run.run g with
      | (.ok a, g') => after (f a) g'
      | (.error _, g') => g' := by
  show ((x >>= f).run.run g).2 = _
  rw [run_bind]
  rcases x.run.run g with ⟨r, g'⟩
  cases r <;> rfl

theorem Keeps.bind {x : Edit K α} {f : α → Edit K β} (hx : Keeps P x) (hf : ∀ a, Keeps P (f a)) :
    Keeps P (x >>= f) := by
  intro g hg
  have hfirst : P (x.run.run g).2 := hx g hg
  rw [after_edit_bind]
  rcases hrun : x.run.run g with ⟨r, g'⟩
  rw [hrun] at hfirst
  cases r with
  | ok a => exact hf a g' hfirst
  | error e => exact hfirst

/-- A value that may be refused is known to be what it is. -/
theorem Keeps.liftExcept_bind {r : Except (Error K) α} {f : α → Edit K β}
    (hf : ∀ a, r = .ok a → Keeps P (f a)) : Keeps P (liftExcept r >>= f) := by
  intro g hg
  cases r with
  | ok a => exact hf a rfl g hg
  | error e => exact hg

/-- What is read of the graph is read of a graph that has the property. -/
theorem Keeps.get_bind {f : RoadGraph K → Edit K β} (hf : ∀ g, P g → Keeps P (f g)) :
    Keeps P (get >>= f) := fun g hg => hf g hg g hg

theorem Keeps.forM {f : α → Edit K Unit} {as : List α} (h : ∀ a ∈ as, Keeps P (f a)) :
    Keeps P (as.forM f) := by
  induction as with
  | nil => exact fun g hg => hg
  | cons a as ih =>
    exact (h a List.mem_cons_self).bind fun _ => ih fun b hb => h b (List.mem_cons_of_mem a hb)

end Keeping

/-! ## §2. What a document keeps. -/

namespace Fixture

variable {K : Type} [Scalar K] {P : RoadGraph K → Prop} {is3d : Bool}

theorem keeps_placeNodes {ps : List (PointFixture K)} (n : NodeId)
    (hnode : ∀ p ∈ ps, ∀ q, p.toPoint is3d = .ok q → ∀ n, Keeps P (RoadGraph.setNode n q)) :
    Keeps P (placeNodes is3d n ps) := by
  induction ps generalizing n with
  | nil => exact fun g hg => hg
  | cons p ps ih =>
    have hrest := ih (n + 1) fun q hq => hnode q (List.mem_cons_of_mem p hq)
    exact Keeps.liftExcept_bind fun q hq =>
      (hnode p List.mem_cons_self q hq n).bind fun _ => hrest

/-- **A road**, edit by edit. -/
theorem keeps_addRoad {car : VehicleEncoding K} {e : EdgeFixture K}
    (hadd : ∀ a b, Keeps P (RoadGraph.addEdge a b 0))
    (hpillars : ∀ edge qs, (∀ q ∈ qs, ∃ p ∈ e.pillars, p.toPoint is3d = .ok q) →
      Keeps P (RoadGraph.setPillars edge ⟨qs, is3d⟩))
    (hname : ∀ edge, Keeps P (RoadGraph.setName edge e.name))
    (hdistance : ∀ (g : RoadGraph K) edge, P g → Keeps P (RoadGraph.setDistance edge
      (e.distance.getD (Geo.lengthOf (g.fullGeometry edge false)))))
    (hassign : ∀ {α : Type} (v : EdgeView K) p (encode : α → Except (Error K) Nat) values,
      Keeps P (RoadGraph.assign v p encode values)) : Keeps P (addRoad is3d car e) := by
  refine (hadd _ _).bind fun edge => Keeps.liftExcept_bind fun qs hqs =>
    (hpillars edge qs fun q hq => mem_of_mapM_ok hqs hq).bind fun _ => (hname edge).bind fun _ =>
    Keeps.get_bind fun g hg => (hdistance g edge hg).bind fun _ =>
    Keeps.get_bind fun g _ => Keeps.liftExcept_bind fun v _ => ?_
  exact (hassign v _ _ _).bind fun _ => (hassign v _ _ _).bind fun _ => hassign v _ _ _

theorem keeps_addTurn {t : TurnFixture K} (hturn : Keeps P (RoadGraph.setTurn t.turn t.cost)) :
    Keeps P (addTurn t) := by
  refine Keeps.get_bind fun g _ => ?_
  intro g' hg'
  show P (after (if g.edgeCount ≤ t.turn.inEdge then _
    else if g.edgeCount ≤ t.turn.outEdge then _ else _) g')
  split
  · exact hg'
  · split
    · exact hg'
    · exact hturn g' hg'

/-- **What all edits of a document keep**, the graph of the document has. -/
theorem of_build {f : Fixture K} {g : RoadGraph K} {car : VehicleEncoding K}
    (h : f.build = .ok (g, car)) (hempty : P (.empty f.elevation))
    (hnodes : ∀ n, Keeps P (placeNodes f.elevation n f.nodes))
    (hroads : ∀ e ∈ f.edges, ∀ car, Keeps P (addRoad f.elevation car e))
    (hturns : ∀ t ∈ f.turns, Keeps P (addTurn t)) : P g := by
  obtain ⟨-, hrun⟩ := build_eq_ok.1 h
  have hedits : Keeps P (f.edits .registered) := by
    refine (hnodes 0).bind fun _ => Keeps.bind ?_ fun _ => ?_
    · exact Keeps.forM fun e he => hroads e he .registered
    · exact Keeps.forM hturns
  have hafter : after (f.edits .registered) (.empty f.elevation) = g := congrArg Prod.snd hrun
  exact hafter ▸ hedits _ hempty

/-- **The graph of a document is a built one.** -/
theorem built {f : Fixture K} {g : RoadGraph K} {car : VehicleEncoding K}
    (h : f.build = .ok (g, car)) : g.Built := by
  refine of_build h (.empty f.elevation) (fun n => ?nodes) (fun e _ car => ?roads) fun t _ => ?turns
  case nodes => exact keeps_placeNodes n fun _ _ q _ n g hg => .setNode n q hg
  case roads =>
    exact keeps_addRoad (fun a b g hg => .addEdge a b 0 hg)
      (fun edge qs _ g hg => .setPillars edge _ hg) (fun edge g hg => .setName edge _ hg)
      (fun _ edge _ g hg => .setDistance edge _ hg)
      fun v p encode values g hg => .assign v p encode values hg
  case turns => exact keeps_addTurn fun g hg => .setTurn t.turn t.cost hg

end Fixture

end RoadSplice

/-
  RoadSplice.Proofs.Itinerary.Independence — legs of a journey do not depend on each other.

  What a leg of an itinerary is, it is alone: routed on the graph as it was opened, with no marks
  but its own.  This holds of every journey on the graph of a document, and so of every request that
  is granted.
-/
import RoadSplice.CommandLine.Run
import RoadSplice.Proofs.Itinerary.Eastward

namespace RoadSplice

variable {K : Type} [Scalar K] {g : RoadGraph K}

open QueryGraph (ofOverlay)

/-- **A request that is granted** is granted by legs that stand alone. -/
theorem CommandLine.exists_legs_of_run {a : CommandLine.Arguments}
    {document : Except (Error Float) (Fixture Float)} {it : Itinerary Float}
    (h : a.run document = .ok it) : ∃ f g car s, document = .ok f ∧ f.build = .ok (g, car) ∧
      a.trip.prepare g car = .ok s ∧ ∃ outcomes : List (Trip.Outcome Float),
        outcomes.length = a.trip.places.length - 1 ∧ a.trip.StandAlone g s outcomes ∧
        it = Trip.pushAll outcomes (Itinerary.start s.stops) := by
  obtain ⟨f, hf, h⟩ := except_bind.1 h
  obtain ⟨⟨g, car⟩, hbuild, h⟩ := except_bind.1 h
  have hf := mapError_eq_ok hf
  have hbuild := mapError_eq_ok hbuild
  have hplan := mapError_eq_ok h
  obtain ⟨s, hprepare, -⟩ := except_bind.1 hplan
  exact ⟨f, g, car, s, hf, hbuild, hprepare, Trip.plan_inv hbuild hprepare hplan⟩

end RoadSplice

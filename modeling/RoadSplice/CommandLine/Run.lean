/-
  RoadSplice.CommandLine.Run — from a request and a document to what is printed.
-/
import RoadSplice.CommandLine.Arguments
import RoadSplice.Fixture.Basic
import RoadSplice.Itinerary.Report

namespace RoadSplice.CommandLine

/-- Why a request cannot be granted. -/
inductive Failure where
  /-- The file holds no document of a road graph, or cannot be read at all. -/
  | unreadable (path reason : String)
  | notBuilt (cause : Error Float)
  | notPlanned (cause : TripError Float)

def Failure.message : Failure → String
  | unreadable path reason => s!"Failed to load graph fixture {path}: {reason}"
  | notBuilt cause => s!"Failed to build graph from fixture: {cause.message}"
  | notPlanned cause => cause.message

/-- **Grants a request** on the document of a road graph. -/
def Arguments.run (a : Arguments) (document : Except (Error Float) (Fixture Float)) :
    Except Failure (Itinerary Float) := do
  let fixture ← document.mapError fun e => .unreadable a.graphPath e.message
  let (g, car) ← fixture.build.mapError .notBuilt
  (a.trip.plan g car).mapError .notPlanned

/-- How an itinerary is printed. -/
def Arguments.render (a : Arguments) (it : Itinerary Float) : String :=
  if a.asJson then it.document.write else it.text

end RoadSplice.CommandLine

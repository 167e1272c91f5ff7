/-
  RoadSplice.Itinerary.Report — an itinerary in words and as a JSON document.
-/
import RoadSplice.Itinerary.Basic
import RoadSplice.Json.Document

namespace RoadSplice

open Decimal (fixed)
open Json (Document)

/-! ## §1. In words. -/

/-- A position as a word of a report. -/
def Position.label : Position → String
  | tower => "Tower"
  | pillar => "Pillar"
  | edge => "Edge"

/-- Seconds with one decimal. -/
def Millis.secondsText (m : Millis) : String := fixed 1 (m.toSeconds : Float)

/-- The line of a stop. -/
def Stop.line (number : Nat) (s : Stop Float) : String :=
  let kind := if s.isVirtual then "virtual" else "tower"
  let query := s.query.text
  match s.node, s.snapped with
  | some node, some snapped =>
    let point := snapped.text
    let metres := fixed 1 s.distance
    let position := s.position.label
    s!"📍 #{number}: {query} -> {kind} node {node} at {point} ({metres} m, {position})"
  | _, _ => s!"📍 #{number}: {query} not snapped"

/-- The line of a leg. -/
def Leg.line (number : Nat) (leg : Leg Float) : String :=
  let metres := fixed 1 leg.distance
  let seconds := leg.millis.secondsText
  let cross := match leg.hierarchyWeight with
    | some weight => ", CH weight " ++ fixed 3 weight
    | none => ""
  s!"🛣️  leg {number}: {leg.source} -> {leg.target}: {metres} m, {seconds} s, "
    ++ s!"{leg.edges} edges ({leg.virtualEdges} virtual)" ++ cross

namespace Itinerary

/-- The last line of a report. -/
def totalLine (it : Itinerary Float) : String :=
  let metres := fixed 1 it.distance
  let seconds := it.millis.secondsText
  let weight := fixed 3 it.weight
  s!"✅ total: {metres} m, {seconds} s, weight {weight}, {it.points.length} points"

/-- **The report of an itinerary**: a line for every stop, one for every leg and the totals. -/
def text (it : Itinerary Float) : String :=
  "\n".intercalate
    (it.stops.zipIdx.map (fun (s, i) => s.line i) ++ it.legs.zipIdx.map (fun (leg, i) => leg.line i)
      ++ [it.totalLine])

end Itinerary

/-! ## §2. As a document. -/

def Location.document (l : Location Float) : Document := .list [.decimal l.lat, .decimal l.lon]

def Stop.document (s : Stop Float) : Document :=
  .record [
    ("query", s.query.document),
    ("snapped", .optional Location.document s.snapped),
    ("position", .text s.position.name),
    ("node", .optional .natural s.node),
    ("virtual_node", .bool s.isVirtual),
    ("distance", .decimal s.distance)]

/-- A leg; the weight found on a hierarchy is left out where there is none. -/
def Leg.document (leg : Leg Float) : Document :=
  .record ([
    ("from", .natural leg.source),
    ("to", .natural leg.target),
    ("distance", .decimal leg.distance),
    ("weight", .decimal leg.weight),
    ("millis", .natural leg.millis.count),
    ("edges", .natural leg.edges),
    ("virtual_edges", .natural leg.virtualEdges)]
    ++ (leg.hierarchyWeight.map fun weight => ("ch_weight", Document.decimal weight)).toList)

/-- **The document of an itinerary.** -/
def Itinerary.document (it : Itinerary Float) : Document :=
  .record [
    ("snaps", .list (it.stops.map Stop.document)),
    ("legs", .list (it.legs.map Leg.document)),
    ("distance", .decimal it.distance),
    ("weight", .decimal it.weight),
    ("millis", .natural it.millis.count),
    ("points", .list (it.points.map Location.document))]

end RoadSplice

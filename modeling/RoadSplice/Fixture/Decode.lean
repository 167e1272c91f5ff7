/-
  RoadSplice.Fixture.Decode — reading the document of a road graph.
-/
import RoadSplice.Fixture.Basic
import RoadSplice.Json.Decode

namespace RoadSplice

open Json Json.Tree

/-- A point, whose elevation is unknown unless it is given. -/
def Point.ofTree? (tree : Tree) : Option (Point Float) := do
  match ← fields? ["lat", "lon", "ele"] tree with
  | [lat, lon, ele] =>
    return {
      lat := ← required toFloat? lat
      lon := ← required toFloat? lon
      ele := ← withDefault Scalar.nan toFloat? ele }
  | _ => none

/-- **Reading a point.** -/
def Point.read (text : String) : Except (Error Float) (Point Float) :=
  match (Tree.read? text).bind Point.ofTree? with
  | some p => .ok p
  | none => .error .malformedText

namespace Fixture

def pointOfTree? (tree : Tree) : Option (PointFixture Float) := do
  match ← fields? ["lat", "lon", "ele"] tree with
  | [lat, lon, ele] =>
    return {
      lat := ← required toFloat? lat
      lon := ← required toFloat? lon
      ele := ← withDefault none (toOption? toFloat?) ele }
  | _ => none

def edgeOfTree? (tree : Tree) : Option (EdgeFixture Float) := do
  let names :=
    ["from", "to", "pillars", "name", "speed", "oneway", "road_class", "distance"]
  match ← fields? names tree with
  | [source, target, pillars, name, speed, oneway, roadClass, distance] =>
    return {
      source := ← required toId? source
      target := ← required toId? target
      pillars := ← withDefault [] (toList? pointOfTree?) pillars
      name := ← withDefault "" toText? name
      speed := ← withDefault 50 toFloat? speed
      oneway := ← withDefault false toBool? oneway
      roadClass := ← withDefault .other (toName? RoadClass.ofName?) roadClass
      distance := ← withDefault none (toOption? toFloat?) distance }
  | _ => none

def turnOfTree? (tree : Tree) : Option (TurnFixture Float) := do
  match ← fields? ["from_edge", "via", "to_edge", "cost"] tree with
  | [inEdge, via, outEdge, cost] =>
    return {
      turn := {
        inEdge := ← required toId? inEdge
        via := ← required toId? via
        outEdge := ← required toId? outEdge }
      cost := ← withDefault none (toOption? toFloat?) cost }
  | _ => none

/-- The document that a JSON value describes. -/
def ofTree? (tree : Tree) : Option (Fixture Float) := do
  match ← fields? ["elevation", "nodes", "edges", "turn_costs"] tree with
  | [elevation, nodes, edges, turns] =>
    return {
      elevation := ← withDefault false toBool? elevation
      nodes := ← required (toList? pointOfTree?) nodes
      edges := ← withDefault [] (toList? edgeOfTree?) edges
      turns := ← withDefault [] (toList? turnOfTree?) turns }
  | _ => none

/-- **Reading a document.** -/
def read (text : String) : Except (Error Float) (Fixture Float) :=
  match (Tree.read? text).bind ofTree? with
  | some f => .ok f
  | none => .error .malformedText

end Fixture

end RoadSplice

/-
  RoadSplice.Workspace — a road graph at work, with all that has been derived from it.

  Snaps are collected, spliced into an overlay and searched; a hierarchy may stand beside the
  overlay and be viewed through it.  All that was derived from the road graph falls away when
  the graph is changed.  Flag words are no part of what is derived: writing them keeps
  everything.
-/
import RoadSplice.Hierarchy.View
import RoadSplice.Overlay.Splice
import RoadSplice.Query.Layered
import RoadSplice.Snap.Index
import RoadSplice.Weighting.Speed

namespace RoadSplice

/-- A road graph and what has been derived from it. -/
structure Workspace (K : Type) where
  graph : RoadGraph K
  car : VehicleEncoding K
  layout : FlagLayout
  /-- The properties by name, the newest first. -/
  properties : List (String × Property K)
  snaps : Array (Snap K)
  index : Option (LocationIndex K)
  overlay : Option (Overlay K)
  query : Option (QueryGraph K)
  config : WeightingConfig K
  /-- Whether the weighting looks up the turns of the graph. -/
  usesTurns : Bool
  hierarchy : Option (RoutingHierarchy K)
  view : Option (HierarchyView K)

namespace Workspace

variable {K : Type} [Scalar K]

/-! ## §1. The road graph. -/

/-- A workspace on a road graph, with the properties of a car. -/
def start (g : RoadGraph K) : Except (Error K) (Workspace K) := do
  let (car, layout) ← VehicleEncoding.register FlagLayout.empty
  return {
    graph := g
    car := car
    layout := layout
    properties := [("access", .bool car.access), ("speed", .decimal car.speed),
      ("class", .roadClass car.roadClass)]
    snaps := #[]
    index := none
    overlay := none
    query := none
    config := WeightingConfig.car
    usesTurns := true
    hierarchy := none
    view := none }

/-- The workspace on another state of the road graph: what was derived falls away, the snaps
stay. -/
def onGraph (w : Workspace K) (g : RoadGraph K) : Workspace K :=
  { w with
    graph := g
    index := none
    overlay := none
    query := none
    hierarchy := none
    view := none }

/-- **Changes the road graph**; also a refused change makes everything derived fall away. -/
def change {α : Type} (w : Workspace K) (edit : Edit K α) : Except (Error K) α × Workspace K :=
  let (result, g) := edit.run.run w.graph
  (result, w.onGraph g)

/-! ## §2. Properties. -/

/-- Registers a property under its name. -/
def register (w : Workspace K) (name : String) (type : PropertyType K) (twoDirections : Bool) :
    Except (Error K) (Workspace K) := do
  let (p, layout) ← w.layout.add name type twoDirections
  return { w with layout := layout, properties := (name, p) :: w.properties }

/-- The property last registered under a name. -/
def property? (w : Workspace K) (name : String) : Option (Property K) :=
  w.properties.lookup name

/-- **Writes a property through a view**, and answers the flag word of the road behind it.  The
query graph sees the same words. -/
def assign (w : Workspace K) (v : EdgeView K) (p : Property K) (values : Assignment p.Value) :
    Except (Error K) Word × Workspace K :=
  let (result, g) := (RoadGraph.setProperty v p values).run.run w.graph
  (result.map fun _ => g.word v.road,
    { w with graph := g, query := w.query.map fun q => { q with base := g } })

/-! ## §3. Snaps and overlays. -/

/-- The workspace with an index of its roads. -/
def indexed (w : Workspace K) : LocationIndex K × Workspace K :=
  let index := w.index.getD (LocationIndex.build w.graph)
  (index, { w with index := some index })

def addSnap (w : Workspace K) (s : Snap K) : Workspace K := { w with snaps := w.snaps.push s }

/-- **Splices the snaps into an overlay** and opens a query graph on it.  The snaps are
brought up to date also when that fails, while the former overlay then stays. -/
def splice (w : Workspace K) : Except (Error K) (Overlay K) × Workspace K :=
  let (result, snaps) := Overlay.build w.graph w.snaps
  let w := { w with snaps := snaps }
  match result with
  | .error e => (.error e, w)
  | .ok o =>
    (.ok o,
      { w with overlay := some o, query := some (QueryGraph.ofOverlay w.graph o), view := none })

/-- Opens another query graph on the overlay. -/
def reopen (w : Workspace K) : Workspace K :=
  { w with query := w.overlay.map (QueryGraph.ofOverlay w.graph) }

/-- The workspace with a query graph whose marks have changed; they lie in the overlay. -/
def withQuery (w : Workspace K) (q : QueryGraph K) : Workspace K :=
  { w with query := some q, overlay := some q.overlay }

/-! ## §4. Searches. -/

/-- The graph as searches see it: through the overlay, if a query graph is open. -/
def current (w : Workspace K) : Layered K :=
  match w.query with
  | some q => .spliced q
  | none => .plain w.graph

/-- The weighting of the road graph. -/
def weighting (w : Workspace K) : SpeedWeighting K :=
  ⟨w.car, w.config, if w.usesTurns then some w.graph.turns else none⟩

/-- The weighting carried over to a graph. -/
def weightingOn (w : Workspace K) (g : Layered K) : Weighting K := g.wrap w.weighting.toWeighting

/-- The view of a hierarchy over a query graph of its own on an overlay. -/
def viewOf (w : Workspace K) (h : RoutingHierarchy K) (o : Overlay K) :
    Except (Error K) (HierarchyView K) :=
  HierarchyView.make h (QueryGraph.ofOverlay w.graph o) w.weighting.toWeighting

/-- The hierarchy of the road graph. -/
def ground? (w : Workspace K) : Option (RoutingHierarchy K × Layered K) :=
  w.hierarchy.map fun h => (h, .plain w.graph)

/-- The hierarchy as it is viewed. -/
def viewed? (w : Workspace K) : Option (RoutingHierarchy K × Layered K) :=
  w.view.map fun v => (v.routing, .spliced v.query)

end Workspace

end RoadSplice

/-
  RoadSplice.Graph.RoadGraph — the road graph: nodes, roads and what is known about them.

  Nodes and roads are numbered in order.  Changes are written in `Edit`, a state with failures
  that hands back the graph also when it fails, so that what a refused change has left behind
  can be spoken about.
-/
import RoadSplice.Geo.Bounds
import RoadSplice.Graph.EdgeView
import RoadSplice.Graph.TurnTable

namespace RoadSplice

/-! ## §1. The graph. -/

/-- A road between two nodes. -/
structure Road (K : Type) where
  a : NodeId
  b : NodeId
  distance : K
  /-- The points between the two nodes. -/
  pillars : Polyline K
  name : String

/-- A road graph. -/
structure RoadGraph (K : Type) where
  is3d : Bool
  nodes : Array (Point K)
  roads : Array (Road K)
  /-- The roads at each node, in the order in which they were added. -/
  incident : Array (Array EdgeId)
  /-- The flag word of each road. -/
  words : Array Word
  turns : TurnTable K
  bounds : Bounds K

/-- A change of a road graph.  The graph comes back also when the change is refused. -/
abbrev Edit (K α : Type) := ExceptT (Error K) (StateM (RoadGraph K)) α

/-- A result that does not touch the graph, as a change. -/
def liftExcept {K α : Type} (r : Except (Error K) α) : Edit K α := ExceptT.mk (pure r)

namespace RoadGraph

variable {K : Type} [Scalar K]

/-- The graph without nodes. -/
def empty (is3d : Bool) : RoadGraph K :=
  ⟨is3d, #[], #[], #[], #[], TurnTable.empty, Bounds.empty⟩

def nodeCount (g : RoadGraph K) : Nat := g.nodes.size

def edgeCount (g : RoadGraph K) : Nat := g.roads.size

/-! ## §2. Changes. -/

/-- Where a node lies before it is placed. -/
def origin : Point K := Point.flat 0 0

/-- A table filled up to `size` entries. -/
def grow {α : Type} (table : Array α) (size : Nat) (entry : α) : Array α :=
  table ++ Array.replicate (size - table.size) entry

/-- **Places a node.**  Nodes with smaller numbers that do not exist yet come into being at the
origin. -/
def placeNode (g : RoadGraph K) (node : NodeId) (p : Point K) : RoadGraph K :=
  { g with
    nodes := (grow g.nodes (node + 1) origin).setIfInBounds node p
    incident := grow g.incident (node + 1) #[]
    bounds := g.bounds.extend p.lat p.lon }

/-- The graph with one more road between two of its nodes. -/
def joinNodes (g : RoadGraph K) (a b : NodeId) (distance : K) : RoadGraph K :=
  let edge := g.edgeCount
  let incident := g.incident.modify a (·.push edge)
  { g with
    roads := g.roads.push ⟨a, b, distance, Polyline.empty g.is3d, ""⟩
    words := g.words.push 0
    incident := if a = b then incident else incident.modify b (·.push edge) }

def setNode (node : NodeId) (p : Point K) : Edit K Unit := modify (·.placeNode node p)

/-- **Adds a road** between two existing nodes and answers its number. -/
def addEdge (a b : NodeId) (distance : K) : Edit K EdgeId := do
  let g ← get
  if g.nodeCount ≤ a then throw (.nodeNotFound a)
  if g.nodeCount ≤ b then throw (.nodeNotFound b)
  set (g.joinNodes a b distance)
  return g.edgeCount

/-- Changes the record of a road that exists. -/
def modifyRoad (edge : EdgeId) (change : Road K → Road K) : Edit K Unit := do
  let g ← get
  if edge < g.edgeCount then set { g with roads := g.roads.modify edge change }
  else throw (.edgeNotFound edge)

/-- Gives a road its inner points.  The bounds are widened before the road is looked up. -/
def setPillars (edge : EdgeId) (pillars : Polyline K) : Edit K Unit := do
  modify fun g =>
    { g with bounds := pillars.points.foldl (fun b p => b.extend p.lat p.lon) g.bounds }
  modifyRoad edge fun r => { r with pillars := pillars }

def setName (edge : EdgeId) (name : String) : Edit K Unit :=
  modifyRoad edge fun r => { r with name := name }

def setDistance (edge : EdgeId) (distance : K) : Edit K Unit :=
  modifyRoad edge fun r => { r with distance := distance }

/-- Gives a turn a cost, or forbids it. -/
def setTurn (turn : Turn) (cost : Option K) : Edit K Unit :=
  modify fun g =>
    { g with turns := match cost with
        | some c => g.turns.set turn c
        | none => g.turns.restrict turn }

/-! ## §3. Reading. -/

def edgeNodes (g : RoadGraph K) (edge : EdgeId) : Except (Error K) (NodeId × NodeId) :=
  match g.roads[edge]? with
  | some r => .ok (r.a, r.b)
  | none => .error (.edgeNotFound edge)

/-- The flag word of a road; zero for one that does not exist. -/
def word (g : RoadGraph K) (edge : EdgeId) : Word := g.words[edge]?.getD 0

/-- **The full shape of a road**: its first node, its pillars and its second node, turned round
on demand. -/
def fullGeometry (g : RoadGraph K) (edge : EdgeId) (reverse : Bool) : Polyline K :=
  match g.roads[edge]? with
  | none => Polyline.empty g.is3d
  | some r =>
    let s : Polyline K :=
      { points := (g.nodes[r.a]?.getD origin :: r.pillars.points) ++ [g.nodes[r.b]?.getD origin]
        is3d := g.is3d }
    if reverse then s.reverse else s

/-- The view of a road in a given direction. -/
def view (g : RoadGraph K) (d : DirectedEdge) : EdgeView K :=
  { edge := d.edge
    base := d.base
    adj := d.adj
    reverse := d.reverse
    road := d.edge
    piece := none
    distance := (g.roads[d.edge]?.map (·.distance)).getD 0
    shape := g.fullGeometry d.edge d.reverse
    name := (g.roads[d.edge]?.map (·.name)).getD ""
    word := g.word d.edge
    unfavored := false }

/-- The same edge seen from its other end. -/
def detach (g : RoadGraph K) (v : EdgeView K) : EdgeView K := g.view v.directed.reversed

/-- A road as it leaves one of its nodes; a loop leaves in its stored direction. -/
def leaving (g : RoadGraph K) (node : NodeId) (edge : EdgeId) : Option DirectedEdge :=
  g.roads[edge]?.map fun r =>
    if r.a = node then ⟨edge, r.a, r.b, false⟩ else ⟨edge, r.b, r.a, true⟩

/-- The roads that leave a node, in the order of their numbers. -/
def directedEdges (g : RoadGraph K) (node : NodeId) : List DirectedEdge :=
  (g.incident[node]?.getD #[]).toList.filterMap (g.leaving node)

/-- **The edges that leave a node.** -/
def edges (g : RoadGraph K) (node : NodeId) : List (EdgeView K) :=
  (g.directedEdges node).map g.view

/-- The direction in which a road leads to a node, the stored one when none is named. -/
def directedTo (g : RoadGraph K) (edge : EdgeId) (adj : Option NodeId) :
    Except (Error K) DirectedEdge :=
  match g.roads[edge]? with
  | none => .error (.edgeNotFound edge)
  | some r =>
    match adj with
    | none => .ok ⟨edge, r.a, r.b, false⟩
    | some n =>
      if n = r.b then .ok ⟨edge, r.a, r.b, false⟩
      else if n = r.a then .ok ⟨edge, r.b, r.a, true⟩
      else .error (.edgeNotAdjacent edge n)

/-- **The view of a road towards a node.** -/
def edge (g : RoadGraph K) (edge : EdgeId) (adj : Option NodeId) : Except (Error K) (EdgeView K) :=
  (g.directedTo edge adj).map g.view

def otherNode (g : RoadGraph K) (edge : EdgeId) (node : NodeId) : Except (Error K) NodeId :=
  match g.roads[edge]? with
  | none => .error (.edgeNotFound edge)
  | some r =>
    if node = r.a then .ok r.b
    else if node = r.b then .ok r.a
    else .error (.edgeNotAdjacent edge node)

def isAdjacent (g : RoadGraph K) (edge : EdgeId) (node : NodeId) : Bool :=
  match g.roads[edge]? with
  | none => false
  | some r => r.a == node || r.b == node

/-! ## §4. Writing properties. -/

/-- Changes the flag word of a road that exists. -/
def updateWord (edge : EdgeId) (change : Word → Word) : Edit K Unit := do
  let g ← get
  if edge < g.words.size then set { g with words := g.words.modify edge change }
  else throw (.edgeNotFound edge)

/-- **Writes a property through a view.**  Values are encoded, and may be refused, before the
word of the road behind the view is touched; a value for each direction needs a property that
tells them apart. -/
def assign {α : Type} (v : EdgeView K) (p : IntProperty) (encode : α → Except (Error K) Nat)
    (values : Assignment α) : Edit K Unit :=
  match values with
  | .along x => do
    let raw ← liftExcept (encode x)
    updateWord v.road (p.write v.reverse · raw)
  | .against x => do
    let raw ← liftExcept (encode x)
    updateWord v.road (p.write (!v.reverse) · raw)
  | .both x y => do
    liftExcept p.requireTwoDirections
    let forward ← liftExcept (encode x)
    let backward ← liftExcept (encode y)
    updateWord v.road fun w => p.write (!v.reverse) (p.write v.reverse w forward) backward

def setInt (v : EdgeView K) (p : IntProperty) (values : Assignment Nat) : Edit K Unit :=
  assign v p (fun x => (p.check x).map fun _ => x) values

def setBool (v : EdgeView K) (p : BoolProperty) (values : Assignment Bool) : Edit K Unit :=
  assign v p.int (fun x => .ok x.toNat) values

def setDecimal (v : EdgeView K) (p : DecimalProperty K) (values : Assignment K) : Edit K Unit :=
  assign v p.int p.toRaw values

def setEnum {α : Type} [Enumerated α] [DecidableEq α] (v : EdgeView K) (p : EnumProperty α)
    (values : Assignment α) : Edit K Unit :=
  assign v p.int (fun x => .ok (Enumerated.ordinal x)) values

/-- Writes a property of any type. -/
def setProperty (v : EdgeView K) (p : Property K) (values : Assignment p.Value) : Edit K Unit :=
  assign v p.bits p.encode values

end RoadGraph

end RoadSplice

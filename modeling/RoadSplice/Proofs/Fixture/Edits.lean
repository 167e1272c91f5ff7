/-
  RoadSplice.Proofs.Fixture.Edits — the edits that make the graph of a document.

  The checks of a document are those of its nodes, then those of its roads (ends, inner points,
  speed), then those of its turns.  If none fails, the graph holds the points of the nodes, a record
  and a flag word for each road, both from that road's own entry, and the costs of the turns in the
  order in which they are listed.
-/
import RoadSplice.Fixture.Basic
import RoadSplice.Proofs.Fixture.Checks
import RoadSplice.Proofs.Flags.Values

namespace RoadSplice

variable {K : Type} [Scalar K]

open Scalar

/-! ## §1. What a document says. -/

/-- The properties of a car, registered first. -/
def VehicleEncoding.registered : VehicleEncoding K :=
  { access := ⟨⟨"car_access", 1, 0, some 1⟩⟩
    speed := ⟨⟨"car_average_speed", 5, 2, some 7⟩, 5⟩
    roadClass := ⟨⟨"road_class", 4, 12, none⟩⟩ }

theorem VehicleEncoding.register_empty :
    VehicleEncoding.register (K := K) FlagLayout.empty = .ok (registered, ⟨16⟩) := rfl

/-- The point at a position. -/
def PointFixture.placed (p : PointFixture K) (is3d : Bool) : Point K :=
  if is3d then ⟨p.lat, p.lon, p.ele.getD 0⟩ else Point.flat p.lat p.lon

/-- Positions lie on the globe. -/
def PointFixture.check (p : PointFixture K) : Check K :=
  ⟨(within (-90) 90 p.lat && within (-180) 180 p.lon) = true, .coordinateOutOfRange p.lat p.lon⟩

namespace EdgeFixture

/-- The points of a road, from node to node. -/
def shape (is3d : Bool) (nodes : List (Point K)) (e : EdgeFixture K) : Polyline K :=
  { points := (nodes[e.source]?.getD RoadGraph.origin :: e.pillars.map (·.placed is3d)) ++
      [nodes[e.target]?.getD RoadGraph.origin]
    is3d := is3d }

/-- The record of a road.  A length that is not given is that of the points. -/
def road (is3d : Bool) (nodes : List (Point K)) (e : EdgeFixture K) : Road K :=
  { a := e.source
    b := e.target
    distance := e.distance.getD (Geo.lengthOf (e.shape is3d nodes))
    pillars := ⟨e.pillars.map (·.placed is3d), is3d⟩
    name := e.name }

/-- The speed of a road, in steps. -/
def steps (e : EdgeFixture K) : Nat :=
  count (round (e.speed / (VehicleEncoding.registered : VehicleEncoding K).speed.factor))

/-- The flag word of a road: open forwards, open backwards or not, one speed both ways. -/
def word (e : EdgeFixture K) : Word :=
  let car : VehicleEncoding K := .registered
  let access := car.access.int.write true (car.access.int.write false 0 1) (!e.oneway).toNat
  let speed := car.speed.int.write true (car.speed.int.write false access e.steps) e.steps
  car.roadClass.int.write false speed (Enumerated.ordinal e.roadClass)

/-- The speed of a road can be stored. -/
def speedCheck (e : EdgeFixture K) : Check K :=
  let speed := (VehicleEncoding.registered : VehicleEncoding K).speed
  ⟨∃ n, speed.toRaw e.speed = .ok n,
    .propertyValueOutOfRange speed.int.name e.speed speed.maxValue⟩

/-- **The checks of a road** between so many nodes: its ends, its inner points, its speed.  How a
position and a speed are checked is left open. -/
def inspect (position : PointFixture K → Check K) (speed : EdgeFixture K → Check K) (nodes : Nat)
    (e : EdgeFixture K) : List (Check K) :=
  [⟨e.source < nodes, .nodeNotFound e.source⟩, ⟨e.target < nodes, .nodeNotFound e.target⟩] ++
    e.pillars.map position ++ [speed e]

end EdgeFixture

/-- The checks of a turn between so many roads. -/
def TurnFixture.inspect (edges : Nat) (t : TurnFixture K) : List (Check K) :=
  [⟨t.turn.inEdge < edges, .edgeNotFound t.turn.inEdge⟩,
    ⟨t.turn.outEdge < edges, .edgeNotFound t.turn.outEdge⟩]

namespace Fixture

/-- **The checks of a document**: nodes, roads, turns. -/
def inspect (position : PointFixture K → Check K) (speed : EdgeFixture K → Check K)
    (f : Fixture K) : List (Check K) :=
  f.nodes.map position ++ (f.edges.flatMap (·.inspect position speed f.nodes.length) ++
    f.turns.flatMap (·.inspect f.edges.length))

/-- The checks that are made. -/
def checks (f : Fixture K) : List (Check K) := f.inspect PointFixture.check EdgeFixture.speedCheck

/-- Entering the cost of a turn, or forbidding the turn. -/
def enter (table : TurnTable K) (t : TurnFixture K) : TurnTable K :=
  table.set t.turn (t.cost.getD infinity)

/-- A graph of some nodes, roads, flag words and turns. -/
def sketch (is3d : Bool) (nodes : List (Point K)) (roads : List (Road K)) (words : List Word)
    (turns : TurnTable K) : RoadGraph K :=
  ⟨is3d, nodes.toArray, roads.toArray, #[], words.toArray, turns, Bounds.empty⟩

/-- The points of the nodes. -/
def points (f : Fixture K) : List (Point K) := f.nodes.map (·.placed f.elevation)

/-- **What the graph of a document holds.** -/
def drawn (f : Fixture K) : RoadGraph K :=
  sketch f.elevation f.points (f.edges.map (·.road f.elevation f.points))
    (f.edges.map (·.word)) (f.turns.foldl enter TurnTable.empty)

/-! ## §2. Edit by edit. -/

section Edits

variable {is3d : Bool} {nodes : List (Point K)} {roads : List (Road K)} {words : List Word}
  {turns : TurnTable K}

/-- A graph holds what its tables say. -/
theorem stripped_eq_sketch {g : RoadGraph K} : g.stripped = sketch is3d nodes roads words turns ↔
    g.is3d = is3d ∧ g.nodes = nodes.toArray ∧ g.roads = roads.toArray ∧
      g.words = words.toArray ∧ g.turns = turns := by
  unfold RoadGraph.stripped sketch
  simp

omit [Scalar K] in
/-- The last of several entries is changed. -/
theorem modify_last {α : Type} (xs : List α) (x : α) (change : α → α) :
    (xs ++ [x]).toArray.modify xs.length change = (xs ++ [change x]).toArray := by
  refine Array.ext_getElem? fun i => ?_
  rw [Array.getElem?_modify, List.getElem?_toArray, List.getElem?_toArray]
  by_cases hi : xs.length = i
  · subst hi
    simp
  · rw [if_neg hi]
    by_cases hlt : i < xs.length
    · rw [List.getElem?_append_left hlt, List.getElem?_append_left hlt]
    · rw [List.getElem?_eq_none (by simp; omega), List.getElem?_eq_none (by simp; omega)]

theorem settles_toPoint (p : PointFixture K) :
    Settles (p.toPoint is3d) [p.check] (p.placed is3d) :=
  settles_of_check (fun h => if_pos h) fun h => if_neg h

/-- The next node. -/
theorem makes_setNode (p : Point K) :
    Makes (sketch is3d nodes roads words turns) (RoadGraph.setNode nodes.length p) [] ()
      (sketch is3d (nodes ++ [p]) roads words turns) := by
  refine makes_always fun g hg => ⟨g.placeNode nodes.length p, rfl, ?_⟩
  obtain ⟨hdim, hnodes, hroads, hwords, hturns⟩ := stripped_eq_sketch.1 hg
  refine stripped_eq_sketch.2 ⟨hdim, ?_, hroads, hwords, hturns⟩
  show (RoadGraph.grow g.nodes (nodes.length + 1) RoadGraph.origin).setIfInBounds _ p = _
  rw [hnodes]
  simp [RoadGraph.grow]

/-- **The nodes**, one after the other. -/
theorem makes_placeNodes (nodes : List (Point K)) (ps : List (PointFixture K)) :
    Makes (sketch is3d nodes roads words turns) (placeNodes is3d nodes.length ps)
      (ps.map (·.check)) ()
      (sketch is3d (nodes ++ ps.map (·.placed is3d)) roads words turns) := by
  induction ps generalizing nodes with
  | nil =>
    rw [List.map_nil, List.map_nil, List.append_nil]
    exact makes_always fun g hg => ⟨g, rfl, hg⟩
  | cons p ps ih =>
    have hrest := ih (nodes ++ [p.placed is3d])
    rw [List.length_append, List.length_singleton, List.append_assoc] at hrest
    exact (makes_liftExcept (settles_toPoint p)).bind ((makes_setNode _).bind hrest)

/-- A new road without a length, between nodes that exist. -/
theorem makes_addEdge (a b : NodeId) :
    Makes (sketch is3d nodes roads words turns) (RoadGraph.addEdge a b 0)
      [⟨a < nodes.length, .nodeNotFound a⟩, ⟨b < nodes.length, .nodeNotFound b⟩] roads.length
      (sketch is3d nodes (roads ++ [⟨a, b, 0, Polyline.empty is3d, ""⟩]) (words ++ [0]) turns) := by
  refine makes_get_bind fun g hg => ?_
  obtain ⟨hdim, hnodes, hroads, hwords, hturns⟩ := stripped_eq_sketch.1 hg
  have hcount : g.nodeCount = nodes.length := by simp [RoadGraph.nodeCount, hnodes]
  have hedge : g.edgeCount = roads.length := by simp [RoadGraph.edgeCount, hroads]
  have hexists : ∀ n, n < nodes.length ↔ ¬ g.nodeCount ≤ n := by
    intro n
    rw [hcount, Nat.not_le]
  apply makes_guard (hexists a) fun _ => rfl
  apply makes_guard (hexists b) fun _ => rfl
  -- Both nodes exist: the road gets the next number, and an empty word.
  apply makes_always
  intro _ _
  refine ⟨g.joinNodes a b 0, by rw [← hedge]; rfl, ?_⟩
  refine stripped_eq_sketch.2 ⟨hdim, hnodes, ?_, ?_, hturns⟩
  · show g.roads.push _ = _
    rw [hroads, hdim, List.push_toArray]
  · show g.words.push _ = _
    rw [hwords, List.push_toArray]

/-- Changing the record of the last road. -/
theorem makes_modifyRoad (r : Road K) (change : Road K → Road K) :
    Makes (sketch is3d nodes (roads ++ [r]) words turns)
      (RoadGraph.modifyRoad roads.length change) [] ()
      (sketch is3d nodes (roads ++ [change r]) words turns) := by
  refine makes_always fun g hg => ?_
  obtain ⟨hdim, hnodes, hroads, hwords, hturns⟩ := stripped_eq_sketch.1 hg
  have hlt : roads.length < g.edgeCount := by simp [RoadGraph.edgeCount, hroads]
  rw [RoadGraph.run_modifyRoad, if_pos hlt]
  refine ⟨_, rfl, stripped_eq_sketch.2 ⟨hdim, hnodes, ?_, hwords, hturns⟩⟩
  show g.roads.modify _ _ = _
  rw [hroads, modify_last]

/-- Changing the flag word of the last road. -/
theorem makes_updateWord (w : Word) (change : Word → Word) :
    Makes (sketch is3d nodes roads (words ++ [w]) turns)
      (RoadGraph.updateWord words.length change) [] ()
      (sketch is3d nodes roads (words ++ [change w]) turns) := by
  refine makes_always fun g hg => ?_
  obtain ⟨hdim, hnodes, hroads, hwords, hturns⟩ := stripped_eq_sketch.1 hg
  have hlt : words.length < g.words.size := by simp [hwords]
  rw [RoadGraph.run_updateWord, if_pos hlt]
  refine ⟨_, rfl, stripped_eq_sketch.2 ⟨hdim, hnodes, hroads, ?_, hturns⟩⟩
  show g.words.modify _ _ = _
  rw [hwords, modify_last]

/-- Inner points for the last road. -/
theorem makes_setPillars (r : Road K) (s : Polyline K) :
    Makes (sketch is3d nodes (roads ++ [r]) words turns) (RoadGraph.setPillars roads.length s) [] ()
      (sketch is3d nodes (roads ++ [{ r with pillars := s }]) words turns) := by
  -- Widening the bounds is no change of what the graph holds.
  have hwiden : Makes (sketch is3d nodes (roads ++ [r]) words turns)
      (modify fun g => { g with
        bounds := s.points.foldl (fun b p => b.extend p.lat p.lon) g.bounds } : Edit K Unit) [] ()
      (sketch is3d nodes (roads ++ [r]) words turns) :=
    makes_always fun g hg => ⟨_, rfl, hg⟩
  exact hwiden.bind (makes_modifyRoad r _)

/-- A value for each direction of the last road. -/
theorem makes_assignBoth {α : Type} {v : EdgeView K} {p : IntProperty}
    {encode : α → Except (Error K) Nat} {x y : α} {i j : Nat} {cs ds : List (Check K)} (w : Word)
    (hroad : v.road = words.length) (hreverse : v.reverse = false)
    (hp : p.isTwoDirectional = true) (hx : Settles (encode x) cs i) (hy : Settles (encode y) ds j) :
    Makes (sketch is3d nodes roads (words ++ [w]) turns)
      (RoadGraph.assign v p encode (.both x y)) (cs ++ ds) ()
      (sketch is3d nodes roads (words ++ [p.write true (p.write false w i) j]) turns) := by
  have htwo : p.requireTwoDirections (K := K) = .ok () := if_pos hp
  show Makes _ (liftExcept p.requireTwoDirections >>= fun _ => liftExcept (encode x) >>= fun i =>
    liftExcept (encode y) >>= fun j => RoadGraph.updateWord v.road fun w =>
      p.write (!v.reverse) (p.write v.reverse w i) j) _ _ _
  rw [hroad, hreverse, show cs ++ ds = [] ++ (cs ++ (ds ++ [])) by simp]
  exact (makes_liftExcept (settles_ok htwo)).bind ((makes_liftExcept hx).bind
    ((makes_liftExcept hy).bind (makes_updateWord w _)))

/-- A value for the last road as it is stored. -/
theorem makes_assignAlong {α : Type} {v : EdgeView K} (p : IntProperty)
    {encode : α → Except (Error K) Nat} {x : α} {i : Nat} {cs : List (Check K)} (w : Word)
    (hroad : v.road = words.length) (hreverse : v.reverse = false)
    (hx : Settles (encode x) cs i) :
    Makes (sketch is3d nodes roads (words ++ [w]) turns)
      (RoadGraph.assign v p encode (.along x)) cs ()
      (sketch is3d nodes roads (words ++ [p.write false w i]) turns) := by
  show Makes _ (liftExcept (encode x) >>= fun i =>
    RoadGraph.updateWord v.road fun w => p.write v.reverse w i) _ _ _
  rw [hroad, hreverse, ← List.append_nil cs]
  exact (makes_liftExcept hx).bind (makes_updateWord w _)

/-- A speed that cannot be stored is refused. -/
theorem settles_speed (e : EdgeFixture K) :
    Settles ((VehicleEncoding.registered : VehicleEncoding K).speed.toRaw e.speed) [e.speedCheck]
      e.steps := by
  apply settles_of_check
  · rintro ⟨n, hn⟩
    rw [hn, DecimalProperty.toRaw_ok hn]
    rfl
  · intro hnone
    unfold DecimalProperty.toRaw
    unfold EdgeFixture.speedCheck DecimalProperty.toRaw at hnone
    dsimp only at hnone ⊢
    split at hnone
    · rename_i hrefused
      rw [if_pos hrefused]
      rfl
    · exact absurd ⟨_, rfl⟩ hnone

/-- The properties of the last road. -/
theorem makes_properties (e : EdgeFixture K) {car : VehicleEncoding K} (hcar : car = .registered)
    {v : EdgeView K} (hroad : v.road = words.length) (hreverse : v.reverse = false) :
    Makes (sketch is3d nodes roads (words ++ [0]) turns)
      (do RoadGraph.setBool v car.access (.both true (!e.oneway))
          RoadGraph.setDecimal v car.speed (.both e.speed e.speed)
          RoadGraph.setEnum v car.roadClass (.along e.roadClass))
      [e.speedCheck] () (sketch is3d nodes roads (words ++ [e.word]) turns) := by
  have hspeed := settles_speed e
  have haccess : car.access.int.isTwoDirectional = true := hcar ▸ rfl
  have htwo : car.speed.int.isTwoDirectional = true := hcar ▸ rfl
  have hall : Makes (sketch is3d nodes roads (words ++ [0]) turns)
      (do RoadGraph.setBool v car.access (.both true (!e.oneway))
          RoadGraph.setDecimal v car.speed (.both e.speed e.speed)
          RoadGraph.setEnum v car.roadClass (.along e.roadClass))
      ([e.speedCheck] ++ [e.speedCheck] ++ []) ()
      (sketch is3d nodes roads (words ++ [e.word]) turns) := by
    subst hcar
    refine (makes_assignBoth 0 hroad hreverse haccess (settles_ok rfl) (settles_ok rfl)).bind ?_
    refine (makes_assignBoth _ hroad hreverse htwo hspeed hspeed).bind ?_
    exact makes_assignAlong _ _ hroad hreverse (settles_ok rfl)
  -- The speed is checked for each direction, and fails for the first if it does.
  refine hall.of_checks (fun h => (allHold_append.1 (allHold_append.1 h).1).1) ?_
  intro err hfirst
  cases hfirst with
  | here hnot => exact .here hnot
  | later hholds hrest =>
    cases hrest with
    | here hnot => exact absurd hholds hnot
    | later _ hnone => cases hnone

/-- The last road as it is found by its number. -/
theorem edge_last {g : RoadGraph K} {r : Road K}
    (hg : g.stripped = sketch is3d nodes (roads ++ [r]) words turns) :
    g.edge roads.length none = .ok (g.view ⟨roads.length, r.a, r.b, false⟩) ∧
      g.fullGeometry roads.length false =
        { points := (nodes[r.a]?.getD RoadGraph.origin :: r.pillars.points) ++
            [nodes[r.b]?.getD RoadGraph.origin]
          is3d := is3d } := by
  obtain ⟨hdim, hnodes, hroads, -, -⟩ := stripped_eq_sketch.1 hg
  have hlast : g.roads[roads.length]? = some r := by simp [hroads]
  constructor
  · unfold RoadGraph.edge RoadGraph.directedTo
    rw [hlast]
    rfl
  · unfold RoadGraph.fullGeometry
    rw [hlast]
    simp [hdim, hnodes]

/-- **A road**: its ends, its inner points, its speed. -/
theorem makes_addRoad (e : EdgeFixture K) (hwords : words.length = roads.length) :
    Makes (sketch is3d nodes roads words turns) (addRoad is3d .registered e)
      (e.inspect PointFixture.check EdgeFixture.speedCheck nodes.length) ()
      (sketch is3d nodes (roads ++ [e.road is3d nodes]) (words ++ [e.word]) turns) := by
  rw [EdgeFixture.inspect, List.append_assoc]
  refine (makes_addEdge e.source e.target).bind ?_
  refine (makes_liftExcept (settles_mapM settles_toPoint e.pillars)).bind ?_
  refine (makes_setPillars _ _).bind ?_
  refine (makes_modifyRoad _ _).bind ?_
  refine makes_get_bind fun g hg => ?_
  rw [(edge_last hg).2]
  refine (makes_modifyRoad _ _).bind ?_
  refine makes_get_bind fun g' hg' => ?_
  refine (makes_liftExcept (settles_ok (edge_last hg').1)).bind ?_
  exact makes_properties e rfl hwords.symm rfl

/-- A turn, with its cost or forbidden. -/
theorem makes_setTurn (t : TurnFixture K) :
    Makes (sketch is3d nodes roads words turns) (RoadGraph.setTurn t.turn t.cost) [] ()
      (sketch is3d nodes roads words (enter turns t)) := by
  have hset : ∀ (cost : Option K) (g : RoadGraph K),
      ((RoadGraph.setTurn t.turn cost).run.run g).2.turns =
        g.turns.set t.turn (cost.getD infinity) := by
    intro cost g
    cases cost with
    | some c => rfl
    | none => rfl
  refine makes_always fun g hg => ⟨_, rfl, ?_⟩
  obtain ⟨hdim, hnodes, hroads, hwords, hturns⟩ := stripped_eq_sketch.1 hg
  refine stripped_eq_sketch.2 ⟨hdim, hnodes, hroads, hwords, ?_⟩
  rw [enter, ← hturns]
  exact hset t.cost g

/-- A turn between roads that exist. -/
theorem makes_addTurn (t : TurnFixture K) :
    Makes (sketch is3d nodes roads words turns) (addTurn t) (t.inspect roads.length) ()
      (sketch is3d nodes roads words (enter turns t)) := by
  refine makes_get_bind fun g hg => ?_
  obtain ⟨-, -, hroads, -, -⟩ := stripped_eq_sketch.1 hg
  have hexists : ∀ edge, edge < roads.length ↔ ¬ g.edgeCount ≤ edge := by
    intro edge
    rw [Nat.not_le]
    simp [RoadGraph.edgeCount, hroads]
  apply makes_guard (hexists t.turn.inEdge) fun _ => rfl
  apply makes_guard (hexists t.turn.outEdge) fun _ => rfl
  exact makes_setTurn t

/-- **The roads**, one after the other. -/
theorem makes_roads {n : Nat} (hn : nodes.length = n) (es : List (EdgeFixture K)) :
    Makes (sketch is3d nodes [] [] turns) (es.forM (addRoad is3d .registered))
      (es.flatMap (·.inspect PointFixture.check EdgeFixture.speedCheck n)) ()
      (sketch is3d nodes (es.map (·.road is3d nodes)) (es.map (·.word)) turns) := by
  subst hn
  let held (done : List (EdgeFixture K)) : RoadGraph K :=
    sketch is3d nodes (done.map (·.road is3d nodes)) (done.map (·.word)) turns
  refine makes_forM held (fun done e => ?_) es []
  have hroad : Makes (held done) _ _ _ _ := makes_addRoad e (by simp)
  show Makes _ _ _ _ (sketch _ _ ((done ++ [e]).map _) ((done ++ [e]).map _) _)
  rw [List.map_append, List.map_append]
  exact hroad

/-- **The turns**, one after the other. -/
theorem makes_turns {n : Nat} (hn : roads.length = n) (ts : List (TurnFixture K)) :
    Makes (sketch is3d nodes roads words turns) (ts.forM addTurn) (ts.flatMap (·.inspect n)) ()
      (sketch is3d nodes roads words (ts.foldl enter turns)) := by
  subst hn
  let held (done : List (TurnFixture K)) : RoadGraph K :=
    sketch is3d nodes roads words (done.foldl enter turns)
  refine makes_forM held (fun done t => ?_) ts []
  show Makes _ _ _ _ (sketch _ _ _ _ ((done ++ [t]).foldl enter turns))
  rw [List.foldl_concat]
  exact makes_addTurn t

end Edits

/-! ## §3. All edits of a document. -/

/-- **The edits of a document** make its checks, in order, and then the graph holds what the
document says. -/
theorem makes_edits (f : Fixture K) :
    Makes (RoadGraph.empty f.elevation).stripped (f.edits .registered) f.checks () f.drawn := by
  have hnodes : Makes (RoadGraph.empty f.elevation).stripped (placeNodes f.elevation 0 f.nodes)
      (f.nodes.map (·.check)) () (sketch f.elevation f.points [] [] TurnTable.empty) :=
    makes_placeNodes [] f.nodes
  have hcount : f.points.length = f.nodes.length := List.length_map _
  exact hnodes.bind ((makes_roads hcount f.edges).bind (makes_turns (List.length_map _) f.turns))

end Fixture

end RoadSplice

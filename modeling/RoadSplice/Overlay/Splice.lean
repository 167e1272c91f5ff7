/-
  RoadSplice.Overlay.Splice — cutting snaps into the roads they landed on.

  Snaps are turned to one direction of their road and grouped by road, in the order in which
  the roads first appear.  Each group becomes a chain of virtual nodes from the base node of
  the road to its adjacent node, with pieces between them.  A snap at the spot of the previous
  anchor takes over that anchor instead of adding a node.

  The snaps are brought up to date on the way, and stay so as far as the work has come when it
  fails.
-/
import RoadSplice.Overlay.Delta
import RoadSplice.Snap.Basic

namespace RoadSplice

variable {K : Type} [Scalar K]

open Scalar

/-! ## §1. One direction for each road. -/

namespace Snap

/-- Whether a directed road has to be turned round: from the smaller to the greater node, and
for a loop from the lower to the higher of its first and last pillar. -/
def runsBackwards (g : RoadGraph K) (d : DirectedEdge) : Except (Error K) Bool :=
  if d.base = d.adj then do
    let shape ← d.shape g
    if 3 < shape.length then
      let some first := shape.get? 1 | throw .outOfRange
      let some last := shape.get? (shape.length - 2) | throw .outOfRange
      return last.lat < first.lat
    else return false
  else return d.adj < d.base

/-- The place of the snap counted from the other end of a shape of `points` points. -/
def indexFromEnd (s : Snap K) (points : Nat) : Option Nat :=
  let used := s.wayIndex + (if s.position = .pillar then 1 else 2)
  if used ≤ points then some (points - used) else none

/-- **The snap turned to the direction of its road.** -/
def normalized (s : Snap K) (g : RoadGraph K) : Except (Error K) (Snap K) := do
  let some closest := s.closest | return s
  if ← runsBackwards g closest then
    let shape ← closest.reversed.shape g
    let some index := s.indexFromEnd shape.length
      | throw (.invalidWayIndex closest.edge s.wayIndex shape.length)
    return { s with closest := some closest.reversed, wayIndex := index }
  else return s

end Snap

/-! ## §2. The work in progress. -/

/-- The overlay and the snaps so far. -/
structure Splicing (K : Type) where
  overlay : Overlay K
  snaps : Array (Snap K)

/-- Work on an overlay that may fail; what was done before the failure remains. -/
abbrev SpliceM (K α : Type) := ExceptT (Error K) (StateM (Splicing K)) α

namespace Splicing

def lift {α : Type} (r : Except (Error K) α) : SpliceM K α := ExceptT.mk (pure r)

/-- The snap with a number. -/
def snap (index : Nat) : SpliceM K (Snap K) := do
  let some s := (← get).snaps[index]? | throw .outOfRange
  return s

/-- The road of a snap. -/
def closestOf (s : Snap K) (index : Nat) : SpliceM K DirectedEdge := do
  let some closest := s.closest | throw (.missingClosestEdge index)
  return closest

def setSnap (index : Nat) (s : Snap K) : SpliceM K Unit :=
  modify fun w => { w with snaps := w.snaps.setIfInBounds index s }

def modifyOverlay (change : Overlay K → Overlay K) : SpliceM K Unit :=
  modify fun w => { w with overlay := change w.overlay }

/-! ## §3. Groups. -/

/-- The numbers of the snaps on each road, roads in the order of their first snap. -/
abbrev Groups := List (EdgeId × List Nat)

/-- Files the number of a snap under its road. -/
def file (edge : EdgeId) (index : Nat) : Groups → Groups
  | [] => [(edge, [index])]
  | (e, indices) :: rest =>
    if e = edge then (e, indices ++ [index]) :: rest else (e, indices) :: file edge index rest

/-- Turns a snap to the direction of its road, makes sure that it has a point, and files it.
Snaps at towers need no virtual node. -/
def prepare (g : RoadGraph K) (groups : Groups) (index : Nat) : SpliceM K Groups := do
  let s ← snap index
  if s.position = .tower then return groups
  let s ← lift (s.normalized g)
  setSnap index s
  let s ← if s.point.isNone then lift (s.located g) else pure s
  setSnap index s
  return file (← closestOf s index).edge index groups

/-! ## §4. Chains. -/

/-- The way index of a snap, cut to the shape, and how far the snapped point lies from the
point there: the order of snaps along the road. -/
def along (shape : Polyline K) (s : Snap K) : Option (Nat × K) := do
  let here ← shape.get? (min s.wayIndex (shape.length - 1))
  let p := s.point.getD here
  return (s.wayIndex, Geo.planeNormalizedDistance here.lat here.lon p.lat p.lon)

/-- Whether a snap lies at or before another one along the road. -/
def atOrBefore (a b : Nat × K) : Bool := (compare a.1 b.1).then (order a.2 b.2) |>.isLE

/-- The last anchor of a chain: where it is, which points of the shape it has passed, and which
node it is. -/
structure Anchor (K : Type) where
  point : Point K
  /-- The place of the first point of the shape behind the anchor. -/
  next : Nat
  node : NodeId
  /-- Whether the chain has a virtual node already. -/
  started : Bool
  /-- The way index and the position that a snap at the spot of the anchor takes. -/
  place : Nat × Position

/-- The shape of the piece from an anchor to a point: the anchor, the points of the road up to
`wayIndex`, and the point itself unless it is the last of those. -/
def pieceShape (shape : Polyline K) (a : Anchor K) (isPillar : Bool) (point : Point K)
    (wayIndex : Nat) : Polyline K :=
  let stop := min (wayIndex + 1) shape.length
  let start := min a.next stop
  { shape with
    points := a.point :: shape.slice start stop ++ (if isPillar then [] else [point]) }

/-- Adds the piece from an anchor to a node. -/
def pushPiece (closest : DirectedEdge) (shape : Polyline K) (a : Anchor K) (isPillar : Bool)
    (point : Point K) (wayIndex : Nat) (node : NodeId) : SpliceM K Unit := do
  let part := pieceShape shape a isPillar point wayIndex
  modifyOverlay (·.pushPair closest.edge a.node node closest.reverse part (Geo.lengthOf part))

/-- A snap at the spot of an anchor, made to be that anchor. -/
def collapsed (s : Snap K) (a : Anchor K) : Snap K :=
  { s with
    node := some a.node
    point := some a.point
    wayIndex := a.place.1
    position := a.place.2 }.measured

/-- **One more snap of a chain**: it takes over the anchor or becomes the next one. -/
def link (closest : DirectedEdge) (shape : Polyline K) (a : Anchor K) (index : Nat) :
    SpliceM K (Anchor K) := do
  let s ← snap index
  let own ← closestOf s index
  if own.base ≠ closest.base then
    throw (.inconsistentBaseNode closest.edge closest.base own.base)
  let point := s.point.getD a.point
  if a.point.coincides point then
    setSnap index (collapsed s a)
    return a
  let overlay := (← get).overlay
  let node := overlay.firstNode + overlay.nodeCount
  pushPiece closest shape a (s.position = .pillar) point s.wayIndex node
  modifyOverlay (·.pushNode point closest.edge)
  if a.started then modifyOverlay (·.repeatLastPair)
  setSnap index (s.setNode node)
  return ⟨point, s.wayIndex + 1, node, true, (s.wayIndex, s.position)⟩

/-- The numbers of a group in the order of their snaps along the road. -/
def sortAlong (shape : Polyline K) (indices : List Nat) : SpliceM K (List Nat) := do
  let keyed ← indices.mapM fun i => do
    let some key := along shape (← snap i) | throw .outOfRange
    return (key, i)
  return (keyed.mergeSort fun (a, _) (b, _) => atOrBefore a b).map (·.2)

/-- **The chain of a road** through the snaps of its group. -/
def spliceRoad (g : RoadGraph K) (indices : List Nat) : SpliceM K Unit := do
  let some first := indices.head? | return
  let closest ← closestOf (← snap first) first
  let shape ← lift (closest.shape g)
  let some start := shape.first? | throw .outOfRange
  let some last := shape.last? | throw .outOfRange
  let ordered ← sortAlong shape indices
  let anchor : Anchor K := ⟨start, 1, closest.base, false, (0, .tower)⟩
  let anchor ← ordered.foldlM (link closest shape) anchor
  if anchor.started then
    if shape.length < 2 then throw .outOfRange
    pushPiece closest shape anchor false last (shape.length - 2) closest.adj

/-! ## §5. The overlay. -/

/-- All the work on a list of snaps. -/
def build (g : RoadGraph K) : SpliceM K (Overlay K) := do
  let count := (← get).snaps.size
  let groups ← (List.range count).foldlM (prepare g) []
  groups.forM fun (_, indices) => spliceRoad g indices
  lift (← get).overlay.buildDeltas

end Splicing

/-- **The overlay of a list of snaps**, and the snaps as they are afterwards. -/
def Overlay.build (g : RoadGraph K) (snaps : Array (Snap K)) :
    Except (Error K) (Overlay K) × Array (Snap K) :=
  match snaps.findIdx? (·.closest.isNone) with
  | some index => (.error (.missingClosestEdge index), snaps)
  | none =>
    let (result, work) :=
      (Splicing.build g).run.run ⟨Overlay.empty g.nodeCount g.edgeCount, snaps⟩
    (result, work.snaps)

end RoadSplice

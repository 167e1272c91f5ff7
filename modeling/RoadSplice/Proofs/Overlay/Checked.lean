/-
  RoadSplice.Proofs.Overlay.Checked — building an overlay with every read and subtraction checked.

  Numbers of points are subtracted from one another, and shapes are cut at places that are computed
  from way indexes.  Here the work is written once more so that it fails where a place lies outside
  its table, a slice ends before it begins or a difference is below zero.  It is the same work: a
  shape has two points at least, a slice is cut to its shape, and two slots have just been filled
  when they are read again.
-/
import RoadSplice.Proofs.Overlay.Failure

namespace RoadSplice.Checked

variable {K α : Type}

/-! ## §1. Reads and differences. -/

/-- What is read, or the failure of reading outside a table. -/
def found (x : Option α) : Except (Error K) α :=
  match x with
  | some a => .ok a
  | none => .error .outOfRange

/-- A difference that is not below zero. -/
def minus (a b : Nat) : Except (Error K) Nat :=
  if b ≤ a then .ok (a - b) else .error .outOfRange

theorem minus_eq {a b : Nat} (h : b ≤ a) : (minus a b : Except (Error K) Nat) = .ok (a - b) :=
  if_pos h

/-! ## §2. The work, checked. -/

variable [Scalar K]

open Splicing (lift snap closestOf setSnap modifyOverlay file collapsed)

/-- Whether a directed road has to be turned round. -/
def runsBackwards (g : RoadGraph K) (d : DirectedEdge) : Except (Error K) Bool :=
  if d.base = d.adj then do
    let shape ← d.shape g
    if 3 < shape.length then
      let first ← found (shape.get? 1)
      let behind ← minus shape.length 2
      let last ← found (shape.get? behind)
      return last.lat < first.lat
    else return false
  else return d.adj < d.base

/-- The snap turned to the direction of its road. -/
def normalized (s : Snap K) (g : RoadGraph K) : Except (Error K) (Snap K) := do
  let some closest := s.closest | return s
  if ← runsBackwards g closest then
    let shape ← closest.reversed.shape g
    let some index := s.indexFromEnd shape.length
      | throw (.invalidWayIndex closest.edge s.wayIndex shape.length)
    return { s with closest := some closest.reversed, wayIndex := index }
  else return s

def prepare (g : RoadGraph K) (groups : Splicing.Groups) (index : Nat) :
    SpliceM K Splicing.Groups := do
  let s ← snap index
  if s.position = .tower then return groups
  let s ← lift (normalized s g)
  setSnap index s
  let s ← if s.point.isNone then lift (s.located g) else pure s
  setSnap index s
  return file (← closestOf s index).edge index groups

/-- The place of a snap along a shape, which has a last point. -/
def along (shape : Polyline K) (s : Snap K) : Except (Error K) (Nat × K) := do
  let last ← minus shape.length 1
  let here ← found (shape.get? (min s.wayIndex last))
  let p := s.point.getD here
  return (s.wayIndex, Geo.planeNormalizedDistance here.lat here.lon p.lat p.lon)

def sortAlong (shape : Polyline K) (indices : List Nat) : SpliceM K (List Nat) := do
  let keyed ← indices.mapM fun i => do
    let key ← lift (along shape (← snap i))
    return (key, i)
  return (keyed.mergeSort fun (a, _) (b, _) => Splicing.atOrBefore a b).map (·.2)

/-- The shape of a piece; the points of the road in it are a slice of the road's shape. -/
def pieceShape (shape : Polyline K) (a : Splicing.Anchor K) (isPillar : Bool) (point : Point K)
    (wayIndex : Nat) : Except (Error K) (Polyline K) := do
  let stop := min (wayIndex + 1) shape.length
  let start := min a.next stop
  let between ← found (Polyline.extend? ⟨[a.point], shape.is3d⟩ shape start stop)
  return if isPillar then between else between.push point

def pushPiece (closest : DirectedEdge) (shape : Polyline K) (a : Splicing.Anchor K)
    (isPillar : Bool) (point : Point K) (wayIndex : Nat) (node : NodeId) : SpliceM K Unit := do
  let part ← lift (pieceShape shape a isPillar point wayIndex)
  modifyOverlay (·.pushPair closest.edge a.node node closest.reverse part (Geo.lengthOf part))

/-- Gives the last two slots, which have to be there, to the next virtual node as well. -/
def repeatLastPair : SpliceM K Unit := do
  let slots := (← get).overlay.slots
  let there ← lift (minus slots.size 2)
  let back ← lift (minus slots.size 1)
  let forward ← lift (found slots[there]?)
  let backward ← lift (found slots[back]?)
  modifyOverlay fun o => { o with slots := (o.slots.push forward).push backward }

def link (closest : DirectedEdge) (shape : Polyline K) (a : Splicing.Anchor K) (index : Nat) :
    SpliceM K (Splicing.Anchor K) := do
  let s ← snap index
  let own ← closestOf s index
  if own.base ≠ closest.base then
    throw (.inconsistentBaseNode closest.edge closest.base own.base)
  let point := s.point.getD a.point
  if a.point.coincides point then
    setSnap index (collapsed s a)
    return a
  let overlay := (← get).overlay
  let node := overlay.firstNode + overlay.nodeCount
  pushPiece closest shape a (s.position = .pillar) point s.wayIndex node
  modifyOverlay (·.pushNode point closest.edge)
  if a.started then repeatLastPair
  setSnap index (s.setNode node)
  return ⟨point, s.wayIndex + 1, node, true, (s.wayIndex, s.position)⟩

def spliceRoad (g : RoadGraph K) (indices : List Nat) : SpliceM K Unit := do
  let some first := indices.head? | return
  let closest ← closestOf (← snap first) first
  let shape ← lift (closest.shape g)
  let start ← lift (found shape.first?)
  let last ← lift (found shape.last?)
  let ordered ← sortAlong shape indices
  let anchor ← ordered.foldlM (link closest shape) ⟨start, 1, closest.base, false, (0, .tower)⟩
  if anchor.started then
    let behind ← lift (minus shape.length 2)
    pushPiece closest shape anchor false last behind closest.adj

/-- The deltas; what they offer has to be in the table of pieces. -/
def buildDeltas (o : Overlay K) : Except (Error K) (Overlay K) := do
  if o.deltas.size ≠ 0 then throw (.deltaMapNotEmpty o.deltas.size)
  let o ← (List.range o.nodeCount).foldlM (fun o i => o.offerAround (o.firstNode + i)) o
  o.deltas.toList.forM fun (_, d) => d.additions.forM fun i => (found (o.piece? i)).map fun _ => ()
  return { o with deltas := o.deltas.map fun _ d => o.withRemovals d }

def build (g : RoadGraph K) : SpliceM K (Overlay K) := do
  let count := (← get).snaps.size
  let groups ← (List.range count).foldlM (prepare g) []
  groups.forM fun (_, indices) => spliceRoad g indices
  lift (buildDeltas (← get).overlay)

/-- **The overlay of a list of snaps**, built with every read and subtraction checked. -/
def buildOverlay (g : RoadGraph K) (snaps : Array (Snap K)) :
    Except (Error K) (Overlay K) × Array (Snap K) :=
  match snaps.findIdx? (·.closest.isNone) with
  | some index => (.error (.missingClosestEdge index), snaps)
  | none =>
    let (result, work) := (build g).run.run ⟨Overlay.empty g.nodeCount g.edgeCount, snaps⟩
    (result, work.snaps)

/-! ## §3. It is the same work. -/

theorem runsBackwards_eq (g : RoadGraph K) (d : DirectedEdge) :
    runsBackwards g d = Snap.runsBackwards g d := by
  unfold runsBackwards Snap.runsBackwards
  split
  · refine bind_congr fun shape => ?_
    split
    · rename_i hlong
      rw [minus_eq (Nat.le_of_lt (Nat.lt_of_succ_lt hlong))]
      cases shape.get? 1 with
      | none => rfl
      | some first =>
        show (found (shape.get? (shape.length - 2)) >>= _) = _
        cases shape.get? (shape.length - 2) <;> rfl
    · rfl
  · rfl

theorem normalized_eq (s : Snap K) (g : RoadGraph K) : normalized s g = s.normalized g := by
  unfold normalized Snap.normalized
  cases s.closest with
  | none => rfl
  | some closest => exact congrArg (· >>= _) (runsBackwards_eq g closest)

theorem prepare_eq (g : RoadGraph K) : prepare g = Splicing.prepare g := by
  funext groups index
  unfold prepare Splicing.prepare
  simp only [normalized_eq]

/-- A shape with points has a last one. -/
theorem along_eq {shape : Polyline K} (h : 1 ≤ shape.length) (s : Snap K) :
    along shape s = found (Splicing.along shape s) := by
  unfold along Splicing.along
  rw [minus_eq h]
  show (found (shape.get? (min s.wayIndex (shape.length - 1))) >>= _) = _
  cases shape.get? (min s.wayIndex (shape.length - 1)) <;> rfl

theorem sortAlong_eq {shape : Polyline K} (h : 1 ≤ shape.length) (indices : List Nat) :
    sortAlong shape indices = Splicing.sortAlong shape indices := by
  unfold sortAlong Splicing.sortAlong
  have hkey : (fun i => do
      let key ← lift (along shape (← snap i))
      return (key, i) : Nat → SpliceM K ((Nat × K) × Nat)) = Splicing.keyOf shape := by
    funext i
    unfold Splicing.keyOf
    refine bind_congr fun s => ?_
    rw [along_eq h]
    cases Splicing.along shape s <;> rfl
  rw [hkey]
  rfl

omit [Scalar K] in
/-- **A slice is cut to its shape**: it ends where it begins or later, and within the shape. -/
theorem pieceShape_eq (shape : Polyline K) (a : Splicing.Anchor K) (isPillar : Bool)
    (point : Point K) (wayIndex : Nat) :
    pieceShape shape a isPillar point wayIndex =
      .ok (Splicing.pieceShape shape a isPillar point wayIndex) := by
  have hslice : Polyline.extend? ⟨[a.point], shape.is3d⟩ shape
      (min a.next (min (wayIndex + 1) shape.length)) (min (wayIndex + 1) shape.length) = some
        ⟨a.point :: shape.slice (min a.next (min (wayIndex + 1) shape.length))
          (min (wayIndex + 1) shape.length), shape.is3d⟩ :=
    if_pos ⟨Nat.min_le_right _ _, Nat.min_le_right _ _⟩
  unfold pieceShape Splicing.pieceShape
  simp only [hslice]
  cases isPillar with
  | false => rfl
  | true => simp [found, bind, Except.bind, pure, Except.pure]

theorem pushPiece_eq (closest : DirectedEdge) (shape : Polyline K) (a : Splicing.Anchor K)
    (isPillar : Bool) (point : Point K) (wayIndex : Nat) (node : NodeId) :
    pushPiece closest shape a isPillar point wayIndex node =
      Splicing.pushPiece closest shape a isPillar point wayIndex node := by
  unfold pushPiece Splicing.pushPiece
  rw [pieceShape_eq]
  rfl

omit [Scalar K] in
/-- The last two slots can be read once they have been filled. -/
theorem repeatLastPair_eq {w : Splicing K} (h : 2 ≤ w.overlay.slots.size) :
    (repeatLastPair : SpliceM K Unit).run.run w =
      (modifyOverlay (·.repeatLastPair) : SpliceM K Unit).run.run w := by
  -- Reading the slots fails only where there are fewer than two.
  have hthere : w.overlay.slots.size - 2 < w.overlay.slots.size := by omega
  have hback : w.overlay.slots.size - 1 < w.overlay.slots.size := by omega
  have hrun : Splicing.Yields repeatLastPair w () { w with
      overlay := { w.overlay with
        slots := (w.overlay.slots.push w.overlay.slots[w.overlay.slots.size - 2]).push
          w.overlay.slots[w.overlay.slots.size - 1] } } := by
    unfold repeatLastPair
    simp only [Splicing.yields_bind, Splicing.yields_get, Splicing.yields_lift,
      Splicing.yields_modifyOverlay]
    refine ⟨_, _, ⟨rfl, rfl⟩, _, _, ⟨minus_eq h, rfl⟩, _, _,
      ⟨minus_eq (Nat.le_of_succ_le h), rfl⟩, _, _, ⟨?_, rfl⟩, _, _, ⟨?_, rfl⟩, rfl⟩
    · rw [Array.getElem?_eq_getElem hthere]
      rfl
    · rw [Array.getElem?_eq_getElem hback]
      rfl
  have hsame : w.overlay.repeatLastPair = { w.overlay with
      slots := (w.overlay.slots.push w.overlay.slots[w.overlay.slots.size - 2]).push
        w.overlay.slots[w.overlay.slots.size - 1] } := by
    unfold Overlay.repeatLastPair
    rw [Array.getElem?_eq_getElem hthere, Array.getElem?_eq_getElem hback]
  rw [hrun]
  show _ = (Except.ok (), { w with overlay := w.overlay.repeatLastPair })
  rw [hsame]

theorem link_eq (closest : DirectedEdge) (shape : Polyline K) :
    link closest shape = Splicing.link closest shape := by
  funext a index
  unfold link Splicing.link
  simp only [pushPiece_eq]
  refine bind_congr fun s => bind_congr fun own => ?_
  split
  · rfl
  · split
    · rfl
    · refine bind_congr fun w => ?_
      cases a.started with
      | false => rfl
      | true =>
        -- The two slots are those of the piece that has been pushed.
        funext v
        refine Splicing.run_bind_congr fun _ v hpush => Splicing.run_bind_congr fun _ v' hnode => ?_
        obtain rfl := Splicing.yields_pushPiece.1 hpush
        obtain rfl := Splicing.yields_modifyOverlay.1 hnode
        refine Splicing.run_bind_left (repeatLastPair_eq ?_)
        simp [Overlay.pushNode, Overlay.pushPart, Overlay.pushPair]

theorem spliceRoad_eq (g : RoadGraph K) : spliceRoad g = Splicing.spliceRoad g := by
  funext indices
  unfold spliceRoad Splicing.spliceRoad
  cases indices.head? with
  | none => rfl
  | some first =>
    simp only [pushPiece_eq]
    refine bind_congr fun s => bind_congr fun closest => ?_
    funext w
    refine Splicing.run_bind_congr fun shape v hshape => ?_
    -- A shape that has been read has two ends, so no check on it fails.
    have hlong := Splicing.two_le_length (Splicing.yields_lift.1 hshape).1
    obtain ⟨⟨start, hstart⟩, last, hlast⟩ := Splicing.exists_ends hlong
    simp only [hstart, hlast, sortAlong_eq (Nat.le_of_succ_le hlong), link_eq, minus_eq hlong]
    show (Splicing.sortAlong shape indices >>= _).run.run v = _
    refine Splicing.run_bind_congr fun ordered v' _ => Splicing.run_bind_congr fun anchor v'' _ => ?_
    rw [if_neg (Nat.not_lt.2 hlong)]
    rfl

omit [Scalar K] in
/-- What the deltas of tables that hang together offer is in the table of pieces. -/
theorem buildDeltas_eq {o : Overlay K} (h : o.WellLinked) : buildDeltas o = o.buildDeltas := by
  unfold buildDeltas Overlay.buildDeltas
  split
  · rfl
  · rename_i hsize
    have hempty : o.deltas.isEmpty = true := by
      rw [Std.TreeMap.isEmpty_eq_size_eq_zero]
      simpa using hsize
    cases hfold : (List.range o.nodeCount).foldlM (fun o i => o.offerAround (o.firstNode + i)) o with
    | error e => rfl
    | ok o₁ =>
      obtain ⟨-, hfit⟩ := h.offers_inv (Overlay.deltasFit_of_isEmpty hempty)
        (fun i hi => List.mem_range.1 hi) hfold
      -- Looking up what is offered never fails.
      have hall : (o₁.deltas.toList.forM fun (_, d) => d.additions.forM fun i =>
          (found (o₁.piece? i)).map fun _ => () : Except (Error K) Unit) = .ok () := by
        refine forM_ok fun ⟨r, d⟩ hmem => forM_ok fun i hi => ?_
        have hd : o₁.deltas[r]? = some d := Std.TreeMap.mem_toList_iff_getElem?_eq_some.1 hmem
        have hdelta : o₁.deltaAt r = d := by
          show o₁.deltas.getD r Delta.none = d
          rw [Std.TreeMap.getD_eq_getD_getElem?, hd, Option.getD_some]
        obtain ⟨p, hp, -⟩ := hfit.starts r i (hdelta ▸ hi)
        rw [hp]
        rfl
      show ((o₁.deltas.toList.forM fun (_, d) => d.additions.forM fun i =>
          (found (o₁.piece? i)).map fun _ => () : Except (Error K) Unit) >>= _) = _
      rw [hall]
      rfl

/-- **Checking changes nothing** about the work on some snaps. -/
theorem build_eq (g : RoadGraph K) (snaps : Array (Snap K)) :
    (build g).run.run ⟨Splicing.uncut g, snaps⟩ =
      (Splicing.build g).run.run ⟨Splicing.uncut g, snaps⟩ := by
  unfold build Splicing.build
  rw [prepare_eq, spliceRoad_eq]
  refine Splicing.run_bind_congr fun v w hget => ?_
  obtain ⟨rfl, rfl⟩ := Splicing.yields_get.1 hget
  refine Splicing.run_bind_congr fun groups w hgroups => Splicing.run_bind_congr fun _ w' hchains => ?_
  refine Splicing.run_bind_congr fun v v' hget' => ?_
  obtain ⟨rfl, rfl⟩ := Splicing.yields_get.1 hget'
  obtain ⟨hgrouped, hoverlay⟩ := Splicing.grouped_all hgroups
  have hempty : w.overlay.Laid [] := hoverlay ▸ Overlay.laid_empty g.nodeCount g.edgeCount
  obtain ⟨cs, hcs⟩ := Splicing.spliceGroups_inv hgrouped.ready hempty hchains
  rw [buildDeltas_eq (hcs.laid.wellLinked (hcs.roads.nodup hgrouped.keys))]

/-- **Nothing is read outside a table** and no difference is below zero when an overlay is built. -/
theorem buildOverlay_eq (g : RoadGraph K) (snaps : Array (Snap K)) :
    buildOverlay g snaps = Overlay.build g snaps := by
  have hrun := build_eq g snaps
  unfold Splicing.uncut at hrun
  unfold buildOverlay Overlay.build
  cases snaps.findIdx? (·.closest.isNone) with
  | some index => rfl
  | none => exact congrArg (fun r => (r.1, r.2.snaps)) hrun

end RoadSplice.Checked

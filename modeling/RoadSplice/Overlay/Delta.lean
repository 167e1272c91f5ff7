/-
  RoadSplice.Overlay.Delta — what an overlay changes at the real nodes next to it.

  A real node beside a virtual one offers the piece that leads there, and no longer offers the
  road behind that piece; otherwise a search could pass the virtual node by.
-/
import RoadSplice.Overlay.Basic

namespace RoadSplice.Overlay

variable {K : Type}

/-! ## §1. Additions. -/

/-- Offers a piece at a real node. -/
def offer (o : Overlay K) (real : NodeId) (piece : Nat) : Overlay K :=
  { o with deltas := o.deltas.insert real ((o.deltas.getD real Delta.none).add piece) }

/-- Looks past one end of a virtual node: if the piece in slot `out` leads to a real node, that
node offers the piece in slot `back`. -/
def offerAcross (o : Overlay K) (node : NodeId) (out back : Slot) :
    Except (Error K) (Overlay K) := do
  let some index := o.slotOf? node out | throw .outOfRange
  let some piece := o.piece? index | throw .outOfRange
  if piece.adj < o.firstNode then
    let some addition := o.slotOf? node back | throw .outOfRange
    return o.offer piece.adj addition
  else return o

/-- The additions on both sides of a virtual node. -/
def offerAround (o : Overlay K) (node : NodeId) : Except (Error K) (Overlay K) := do
  let o ← o.offerAcross node .snapToBase .baseToSnap
  o.offerAcross node .snapToAdj .adjToSnap

/-! ## §2. Removals. -/

/-- The road on which the piece at a place ends, if it ends at a virtual node. -/
def hiddenBy (o : Overlay K) (index : Nat) : Option EdgeId :=
  ((o.piece? index).bind fun p => o.node? p.adj).map (·.road)

/-- The delta with the roads behind its additions withdrawn. -/
def withRemovals (o : Overlay K) (d : Delta) : Delta :=
  (d.additions.filterMap o.hiddenBy).foldl Delta.remove d

/-! ## §3. Both. -/

/-- **The overlay with its deltas.**  They are built once, after all virtual nodes are there. -/
def buildDeltas (o : Overlay K) : Except (Error K) (Overlay K) := do
  if o.deltas.size ≠ 0 then throw (.deltaMapNotEmpty o.deltas.size)
  let o ← (List.range o.nodeCount).foldlM (fun o i => o.offerAround (o.firstNode + i)) o
  return { o with deltas := o.deltas.map fun _ d => o.withRemovals d }

end RoadSplice.Overlay

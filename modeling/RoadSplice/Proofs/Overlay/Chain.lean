/-
  RoadSplice.Proofs.Overlay.Chain — chains of virtual nodes in closed form.

  A chain lies on one road: virtual nodes in order, and parts of the road that lead from the base
  node over the virtual nodes to the adjacent node.  What an overlay holds for a chain is known by
  arithmetic: the numbers of its nodes, the places of its pieces, their ids and the slots that
  name them.

      node 0    node 1         node 2              node k      node k+1
      base ---- start ---- start + 1 ---- ... ---- start + k-1 ---- adj
           part 0      part 1                             part k

  Part `j` lies at the places `offset + 2j` and, in the opposite direction, `offset + 2j + 1`.
-/
import RoadSplice.Overlay.Splice
import RoadSplice.Proofs.Graph.Directions
import RoadSplice.Proofs.Results

namespace RoadSplice

/-! ## §1. Chains. -/

/-- A part of a road between two nodes of a chain: its shape and its length. -/
structure Part (K : Type) where
  shape : Polyline K
  distance : K

/-- A chain of virtual nodes on a road. -/
structure Chain (K : Type) where
  /-- The road, in the direction of the chain. -/
  road : DirectedEdge
  /-- The number of virtual nodes before the chain. -/
  start : Nat
  /-- The number of pieces before the chain. -/
  offset : Nat
  points : List (Point K)
  parts : List (Part K)

namespace Chain

variable {K : Type}

/-- The nodes along a chain, its real ends included; virtual nodes are numbered from `n`. -/
def node (c : Chain K) (n j : Nat) : NodeId :=
  if j = 0 then c.road.base
  else if j ≤ c.points.length then n + (c.start + (j - 1))
  else c.road.adj

/-- Where the slots of the part with a number lie, behind those before the chain. -/
def slotOf (j : Nat) : Nat := 4 * j - 2

/-- The place that a slot of a chain names. -/
def slotValue (c : Chain K) (i : Nat) : Nat := c.offset + 2 * (i / 4) + i % 4

/-- **The piece of a part**, in the direction of the chain or against it; ids count from `e`. -/
def piece (c : Chain K) (n e j : Nat) (part : Part K) (back : Bool) : Piece K :=
  let id := e + (4 * c.start + slotOf j)
  if back then
    ⟨id + 1, c.road.edge, c.node n (j + 1), c.node n j, part.distance, !c.road.reverse,
      part.shape.reverse, c.offset + 2 * j, false⟩
  else
    ⟨id, c.road.edge, c.node n j, c.node n (j + 1), part.distance, c.road.reverse, part.shape,
      c.offset + 2 * j + 1, false⟩

/-- The place of a piece. -/
def place (c : Chain K) (j : Nat) (back : Bool) : Nat := c.offset + 2 * j + back.toNat

/-- The number of slots that a chain has, while it grows and when it is complete. -/
def slotCount (c : Chain K) : Nat := 2 * c.parts.length + 2 * (c.points.length - 1)

/-- A part is named where its slots lie, and again by the virtual node behind it. -/
theorem slotValue_slotOf (c : Chain K) (j : Nat) :
    c.slotValue (slotOf j) = c.place j false ∧ c.slotValue (slotOf j + 1) = c.place j true := by
  simp only [slotValue, slotOf, place, Bool.toNat_false, Bool.toNat_true]
  omega

theorem slotValue_four_mul (c : Chain K) (j : Nat) :
    c.slotValue (4 * j) = c.place j false ∧ c.slotValue (4 * j + 1) = c.place j true := by
  simp only [slotValue, place, Bool.toNat_false, Bool.toNat_true]
  omega

/-- Behind the place where a chain begins every place is that of a piece. -/
theorem exists_place (c : Chain K) {i : Nat} (hle : c.offset ≤ i)
    (hlt : i < c.offset + 2 * c.parts.length) :
    ∃ j back, j < c.parts.length ∧ i = c.place j back := by
  refine ⟨(i - c.offset) / 2, (i - c.offset) % 2 = 1, by omega, ?_⟩
  unfold place
  rcases Nat.mod_two_eq_zero_or_one (i - c.offset) with hmod | hmod
  · simp only [hmod, Nat.zero_ne_one, decide_false, Bool.toNat_false]
    omega
  · simp only [hmod, decide_true, Bool.toNat_true]
    omega

/-- A chain with one more part and the virtual node behind it. -/
def extend (c : Chain K) (part : Part K) (point : Point K) : Chain K :=
  { c with points := c.points ++ [point], parts := c.parts ++ [part] }

/-- A chain with its last part. -/
def close (c : Chain K) (part : Part K) : Chain K := { c with parts := c.parts ++ [part] }

theorem node_virtual (c : Chain K) (n : Nat) {j : Nat} (hj : j < c.points.length) :
    c.node n (j + 1) = n + (c.start + j) := by
  rw [node, if_neg (Nat.succ_ne_zero j), if_pos (Nat.succ_le_of_lt hj), Nat.add_sub_cancel]

theorem node_last (c : Chain K) (n : Nat) : c.node n (c.points.length + 1) = c.road.adj := by
  rw [node, if_neg (Nat.succ_ne_zero _), if_neg (Nat.not_succ_le_self _)]

/-- The nodes that are there stay where they are when a chain grows. -/
theorem node_extend (c : Chain K) (part : Part K) (point : Point K) (n : Nat) {j : Nat}
    (hj : j ≤ c.points.length) : (c.extend part point).node n j = c.node n j := by
  have hle : j ≤ c.points.length + 1 := Nat.le_succ_of_le hj
  simp [node, extend, hj, hle]

/-- The pieces that are there stay what they are when a chain grows. -/
theorem piece_extend (c : Chain K) (part : Part K) (point : Point K) (n e : Nat) {j : Nat}
    (hj : j < c.points.length) (p : Part K) (back : Bool) :
    (c.extend part point).piece n e j p back = c.piece n e j p back := by
  unfold piece
  rw [node_extend c part point n (Nat.le_of_lt hj), node_extend c part point n hj]
  rfl

end Chain

/-- What stands in a list with one more entry. -/
theorem getElem?_snoc {α : Type} {xs : List α} {x y : α} {j : Nat} :
    (xs ++ [x])[j]? = some y ↔ xs[j]? = some y ∨ (j = xs.length ∧ x = y) := by
  rcases Nat.lt_trichotomy j xs.length with h | h | h
  · simp [List.getElem?_append_left h, Nat.ne_of_lt h]
  · simp [h]
  · have hout : (xs ++ [x])[j]? = none :=
      List.getElem?_eq_none (by rw [List.length_append]; exact h)
    simp [hout, List.getElem?_eq_none (Nat.le_of_lt h), Nat.ne_of_gt h]

/-! ## §2. What an overlay holds for a chain. -/

namespace Overlay

variable {K : Type} {o o' : Overlay K} {c : Chain K}

/-- **An overlay carries a chain**: its nodes, its pieces and its slots. -/
structure Carries (o : Overlay K) (c : Chain K) : Prop where
  node : ∀ j p, c.points[j]? = some p → o.nodes[c.start + j]? = some ⟨p, c.road.edge⟩
  piece : ∀ j part back, c.parts[j]? = some part →
    o.pieces[c.place j back]? = some (c.piece o.firstNode o.firstEdge j part back)
  slot : ∀ i, i < c.slotCount → o.slots[4 * c.start + i]? = some (c.slotValue i)

/-- An overlay that holds all that another one does, at the same places. -/
structure Grows (o o' : Overlay K) : Prop where
  firstNode : o'.firstNode = o.firstNode
  firstEdge : o'.firstEdge = o.firstEdge
  nodes : ∀ (i : Nat) x, o.nodes[i]? = some x → o'.nodes[i]? = some x
  pieces : ∀ (i : Nat) x, o.pieces[i]? = some x → o'.pieces[i]? = some x
  slots : ∀ (i : Nat) x, o.slots[i]? = some x → o'.slots[i]? = some x
  deltas : o'.deltas = o.deltas

theorem Grows.refl (o : Overlay K) : Grows o o :=
  ⟨rfl, rfl, fun _ _ h => h, fun _ _ h => h, fun _ _ h => h, rfl⟩

theorem Grows.trans {o'' : Overlay K} (h : Grows o o') (h' : Grows o' o'') : Grows o o'' :=
  ⟨h'.firstNode.trans h.firstNode, h'.firstEdge.trans h.firstEdge,
    fun i x hx => h'.nodes i x (h.nodes i x hx), fun i x hx => h'.pieces i x (h.pieces i x hx),
    fun i x hx => h'.slots i x (h.slots i x hx), h'.deltas.trans h.deltas⟩

theorem Carries.mono (h : o.Carries c) (hg : Grows o o') : o'.Carries c where
  node j p hp := hg.nodes _ _ (h.node j p hp)
  piece j part back hpart := by
    rw [hg.firstNode, hg.firstEdge]
    exact hg.pieces _ _ (h.piece j part back hpart)
  slot i hi := hg.slots _ _ (h.slot i hi)

/-! ## §3. A chain that grows. -/

theorem grows_pushPair (o : Overlay K) (road : EdgeId) (start finish : NodeId) (reverse : Bool)
    (shape : Polyline K) (distance : K) :
    Grows o (o.pushPair road start finish reverse shape distance) :=
  ⟨rfl, rfl, fun _ _ h => h, fun _ _ h => getElem?_push_of_some (getElem?_push_of_some h),
    fun _ _ h => getElem?_push_of_some (getElem?_push_of_some h), rfl⟩

theorem grows_pushNode (o : Overlay K) (point : Point K) (road : EdgeId) :
    Grows o (o.pushNode point road) :=
  ⟨rfl, rfl, fun _ _ h => getElem?_push_of_some h, fun _ _ h => h, fun _ _ h => h, rfl⟩

theorem grows_repeatLastPair (o : Overlay K) : Grows o o.repeatLastPair := by
  unfold repeatLastPair
  split
  · exact ⟨rfl, rfl, fun _ _ h => h, fun _ _ h => h,
      fun _ _ h => getElem?_push_of_some (getElem?_push_of_some h), rfl⟩
  · exact .refl o

/-- Adds a part of a road between two nodes. -/
def pushPart (o : Overlay K) (road : DirectedEdge) (start finish : NodeId) (part : Part K) :
    Overlay K := o.pushPair road.edge start finish road.reverse part.shape part.distance

/-- Adds a part of a road and the virtual node behind it. -/
def pushStop (o : Overlay K) (road : DirectedEdge) (start : NodeId) (part : Part K)
    (point : Point K) (started : Bool) : Overlay K :=
  let o := (o.pushPart road start (o.firstNode + o.nodeCount) part).pushNode point road.edge
  if started then o.repeatLastPair else o

theorem grows_pushStop (o : Overlay K) (road : DirectedEdge) (start : NodeId) (part : Part K)
    (point : Point K) (started : Bool) : Grows o (o.pushStop road start part point started) := by
  unfold pushStop
  have h := (grows_pushPair o road.edge start (o.firstNode + o.nodeCount) road.reverse part.shape
    part.distance).trans (grows_pushNode _ point road.edge)
  split
  · exact h.trans (grows_repeatLastPair _)
  · exact h

/-- **A chain that ends at its last virtual node**, at the end of an overlay. -/
structure Growing (o : Overlay K) (c : Chain K) : Prop extends Carries o c where
  parts_length : c.parts.length = c.points.length
  nodes_size : o.nodes.size = c.start + c.points.length
  pieces_size : o.pieces.size = c.offset + 2 * c.points.length
  slots_size : o.slots.size = 4 * c.start + Chain.slotOf c.points.length

/-- The fields of an overlay with one more part. -/
theorem pushPart_eq (o : Overlay K) (c : Chain K) (start finish : NodeId) (part : Part K)
    {j : Nat} (hstart : start = c.node o.firstNode j) (hfinish : finish = c.node o.firstNode (j + 1))
    (hslots : o.slots.size = 4 * c.start + Chain.slotOf j)
    (hpieces : o.pieces.size = c.offset + 2 * j) :
    o.pushPart c.road start finish part =
      { o with
        pieces := (o.pieces.push (c.piece o.firstNode o.firstEdge j part false)).push
          (c.piece o.firstNode o.firstEdge j part true)
        slots := (o.slots.push (c.place j false)).push (c.place j true) } := by
  simp [pushPart, pushPair, Chain.piece, Chain.place, hstart, hfinish, hslots, hpieces,
    Nat.add_assoc]

theorem repeatLastPair_push {slots : Array Nat} {a b : Nat}
    (h : o.slots = (slots.push a).push b) :
    o.repeatLastPair = { o with slots := (((slots.push a).push b).push a).push b } := by
  have hfirst : ((slots.push a).push b)[((slots.push a).push b).size - 2]? = some a := by
    rw [show ((slots.push a).push b).size - 2 = slots.size by simp]
    exact getElem?_push_of_some Array.getElem?_push_size
  have hsecond : ((slots.push a).push b)[((slots.push a).push b).size - 1]? = some b := by
    rw [show ((slots.push a).push b).size - 1 = (slots.push a).size by simp]
    exact Array.getElem?_push_size
  unfold repeatLastPair
  rw [h]
  simp only [hfirst, hsecond]

/-- Two more slots that hold what they should. -/
theorem slot_push {slots : Array Nat} {m a b : Nat} (hsize : slots.size = 4 * c.start + m)
    (hslot : ∀ i, i < m → slots[4 * c.start + i]? = some (c.slotValue i))
    (ha : c.slotValue m = a) (hb : c.slotValue (m + 1) = b) :
    ∀ i, i < m + 2 →
      ((slots.push a).push b)[4 * c.start + i]? = some (c.slotValue i) := by
  intro i hi
  simp only [Array.getElem?_push, Array.size_push, hsize]
  by_cases hlt : i < m
  · rw [if_neg (by omega), if_neg (by omega), hslot i hlt]
  · obtain rfl | rfl : i = m ∨ i = m + 1 := by omega
    · rw [if_neg (by omega), if_pos rfl, ha]
    · rw [if_pos (by omega), hb]

/-- The two pieces that come last. -/
theorem piece_push {pieces : Array (Piece K)} {j : Nat} (hsize : pieces.size = c.offset + 2 * j)
    (f : Bool → Piece K) (back : Bool) :
    ((pieces.push (f false)).push (f true))[c.place j back]? = some (f back) := by
  cases back with
  | false =>
    refine getElem?_push_of_some ?_
    show (pieces.push _)[c.offset + 2 * j]? = _
    rw [← hsize]
    exact Array.getElem?_push_size
  | true =>
    show ((pieces.push _).push _)[c.offset + 2 * j + 1]? = _
    rw [← hsize, ← Array.size_push]
    exact Array.getElem?_push_size

/-- The slots of a chain with those of one more part. -/
theorem Growing.part_slots (h : Growing o c) : ∀ i, i < Chain.slotOf c.points.length + 2 →
    ((o.slots.push (c.place c.points.length false)).push
      (c.place c.points.length true))[4 * c.start + i]? = some (c.slotValue i) := by
  refine slot_push h.slots_size (fun i hi => ?_) (c.slotValue_slotOf _).1
    (c.slotValue_slotOf _).2
  refine h.slot i (Nat.lt_of_lt_of_eq hi ?_)
  simp only [Chain.slotOf, Chain.slotCount, h.parts_length]
  omega

/-- The overlay with one more part and virtual node, and the slots that it has then. -/
theorem Growing.pushStop_eq (h : Growing o c) (part : Part K) (point : Point K) :
    ∃ slots : Array Nat,
      o.pushStop c.road (c.node o.firstNode c.points.length) part point (!c.points.isEmpty) =
        { o with
          nodes := o.nodes.push ⟨point, c.road.edge⟩
          pieces := (o.pieces.push ((c.extend part point).piece o.firstNode o.firstEdge
              c.points.length part false)).push
            ((c.extend part point).piece o.firstNode o.firstEdge c.points.length part true)
          slots := slots } ∧
      slots.size = 4 * c.start + Chain.slotOf (c.points.length + 1) ∧
      ∀ i, i < (c.extend part point).slotCount →
        slots[4 * c.start + i]? = some ((c.extend part point).slotValue i) := by
  have hpush := pushPart_eq o (c.extend part point) (c.node o.firstNode c.points.length)
    (o.firstNode + o.nodeCount) part (j := c.points.length)
    (c.node_extend part point _ (Nat.le_refl _)).symm
    (by rw [Chain.node_virtual _ _ (by simp [Chain.extend]), nodeCount, h.nodes_size]; rfl)
    h.slots_size h.pieces_size
  have hslots : ∀ i, i < Chain.slotOf c.points.length + 2 →
      ((o.slots.push ((c.extend part point).place c.points.length false)).push
        ((c.extend part point).place c.points.length true))[4 * c.start + i]? =
          some ((c.extend part point).slotValue i) := h.part_slots
  have hcount : (c.extend part point).slotCount = 4 * c.points.length + 2 := by
    simp only [Chain.slotCount, Chain.extend, List.length_append, List.length_singleton,
      h.parts_length]
    omega
  have hpush' : o.pushPart c.road (c.node o.firstNode c.points.length)
      (o.firstNode + o.nodeCount) part = _ := hpush
  rw [pushStop, hpush', hcount]
  cases hempty : c.points.isEmpty with
  | true =>
    -- The first virtual node has nothing before it that names the part.
    have hzero : c.points.length = 0 := by simpa using hempty
    refine ⟨_, rfl, ?_, ?_⟩
    · simp [h.slots_size, hzero, Chain.slotOf]
    · simpa [hzero, Chain.slotOf] using hslots
  | false =>
    -- The virtual node before this one names the part as well.
    have hpos : 0 < c.points.length := by
      rw [List.length_pos_iff]
      simpa using hempty
    have hsize : ((o.slots.push ((c.extend part point).place c.points.length false)).push
        ((c.extend part point).place c.points.length true)).size =
          4 * c.start + 4 * c.points.length := by
      simp only [Array.size_push, h.slots_size, Chain.slotOf]
      omega
    have hmore := slot_push (c := c.extend part point) hsize
      (fun i hi => hslots i (by simp only [Chain.slotOf]; omega))
      ((c.extend part point).slotValue_four_mul c.points.length).1
      ((c.extend part point).slotValue_four_mul c.points.length).2
    refine ⟨_, ?_, ?_, hmore⟩
    · rw [if_pos (by rfl), repeatLastPair_push rfl]
      rfl
    · simp only [Array.size_push, h.slots_size, Chain.slotOf]
      omega

/-- **One more part and virtual node.** -/
theorem Growing.pushStop (h : Growing o c) (part : Part K) (point : Point K) :
    Growing (o.pushStop c.road (c.node o.firstNode c.points.length) part point
      (!c.points.isEmpty)) (c.extend part point) := by
  have hgrows := grows_pushStop o c.road (c.node o.firstNode c.points.length) part point
    (!c.points.isEmpty)
  obtain ⟨slots, heq, hsize, hslot⟩ := h.pushStop_eq part point
  rw [heq] at hgrows ⊢
  -- Earlier nodes and pieces stay where they are; the new ones come last.
  refine ⟨⟨fun j p hp => ?_, fun j p back hp => ?_, hslot⟩, ?_, ?_, ?_, ?_⟩
  · obtain hp | ⟨rfl, rfl⟩ := getElem?_snoc.1 hp
    · exact hgrows.nodes _ _ (h.node j p hp)
    · show (o.nodes.push _)[c.start + c.points.length]? = _
      rw [← h.nodes_size]
      exact Array.getElem?_push_size
  · obtain hp | ⟨rfl, rfl⟩ := getElem?_snoc.1 hp
    · have hj : j < c.points.length := h.parts_length ▸ (List.getElem?_eq_some_iff.1 hp).1
      rw [Chain.piece_extend c part point _ _ hj]
      exact hgrows.pieces _ _ (h.piece j p back hp)
    · rw [h.parts_length]
      exact piece_push (c := c.extend part point) h.pieces_size
        ((c.extend part point).piece o.firstNode o.firstEdge c.points.length part) back
  · simp [Chain.extend, h.parts_length]
  · simp [Chain.extend, h.nodes_size, Nat.add_assoc]
  · simp only [Chain.extend, Array.size_push, h.pieces_size, List.length_append,
      List.length_singleton]
    omega
  · simpa [Chain.extend] using hsize

/-! ## §4. Complete chains. -/

/-- **An overlay made of chains**: it carries them, and every node and piece belongs to one. -/
structure Laid (o : Overlay K) (cs : List (Chain K)) : Prop where
  carries : ∀ c ∈ cs, o.Carries c
  points_ne : ∀ c ∈ cs, c.points ≠ []
  parts_length : ∀ c ∈ cs, c.parts.length = c.points.length + 1
  exists_node : ∀ i, i < o.nodes.size → ∃ c ∈ cs, ∃ j, j < c.points.length ∧ i = c.start + j
  exists_piece : ∀ i, i < o.pieces.size →
    ∃ c ∈ cs, ∃ j back, j < c.parts.length ∧ i = c.place j back
  slots_size : o.slots.size = 4 * o.nodes.size

theorem laid_empty (nodeCount edgeCount : Nat) : Laid (empty nodeCount edgeCount : Overlay K) [] :=
  ⟨by simp, by simp, by simp, by simp [empty], by simp [empty], rfl⟩

/-- A chain that has not begun. -/
def newChain (o : Overlay K) (road : DirectedEdge) : Chain K :=
  ⟨road, o.nodes.size, o.pieces.size, [], []⟩

theorem Laid.growing {cs : List (Chain K)} (h : Laid o cs) (road : DirectedEdge) :
    Growing o (o.newChain road) where
  node j p hp := by simp [newChain] at hp
  piece j part back hp := by simp [newChain] at hp
  slot i hi := by simp [newChain, Chain.slotCount] at hi
  parts_length := rfl
  nodes_size := rfl
  pieces_size := rfl
  slots_size := by simp [h.slots_size, newChain, Chain.slotOf]

/-- A chain that does not begin leaves everything as it is. -/
theorem Laid.of_newChain {cs : List (Chain K)} (h : Laid o cs) (hg : Grows o o')
    {road : DirectedEdge} (hc : Growing o' (o.newChain road)) : Laid o' cs where
  carries c hmem := (h.carries c hmem).mono hg
  points_ne := h.points_ne
  parts_length := h.parts_length
  exists_node i hi := h.exists_node i (Nat.lt_of_lt_of_eq hi hc.nodes_size)
  exists_piece i hi := h.exists_piece i (Nat.lt_of_lt_of_eq hi hc.pieces_size)
  slots_size := hc.slots_size.trans (congrArg (4 * ·) hc.nodes_size.symm)

/-- **The last part** leads to the adjacent node. -/
theorem Growing.close (h : Growing o c) (part : Part K) :
    (o.pushPart c.road (c.node o.firstNode c.points.length) c.road.adj part).Carries
        (c.close part) ∧
      (o.pushPart c.road (c.node o.firstNode c.points.length) c.road.adj part).nodes.size =
        c.start + c.points.length ∧
      (o.pushPart c.road (c.node o.firstNode c.points.length) c.road.adj part).pieces.size =
        c.offset + 2 * (c.close part).parts.length ∧
      (o.pushPart c.road (c.node o.firstNode c.points.length) c.road.adj part).slots.size =
        4 * c.start + Chain.slotOf c.points.length + 2 := by
  have hgrows : Grows o (o.pushPart c.road (c.node o.firstNode c.points.length) c.road.adj part) :=
    grows_pushPair _ _ _ _ _ _ _
  have hpush : o.pushPart c.road (c.node o.firstNode c.points.length) c.road.adj part = _ :=
    pushPart_eq o (c.close part) (c.node o.firstNode c.points.length) c.road.adj part
      (j := c.points.length) rfl (c.node_last _).symm h.slots_size h.pieces_size
  have hlength : (c.close part).parts.length = c.points.length + 1 := by
    simp [Chain.close, h.parts_length]
  rw [hpush] at hgrows ⊢
  -- The last part adds its pieces and slots, and no node.
  refine ⟨⟨fun j p hp => h.node j p hp, fun j p back hp => ?_, fun i hi => ?_⟩, h.nodes_size,
    ?_, ?_⟩
  · obtain hp | ⟨rfl, rfl⟩ := getElem?_snoc.1 hp
    · exact hgrows.pieces _ _ (h.piece j p back hp)
    · rw [h.parts_length]
      exact piece_push (c := c.close part) h.pieces_size
        ((c.close part).piece o.firstNode o.firstEdge c.points.length part) back
  · refine h.part_slots i (Nat.lt_of_lt_of_eq hi ?_)
    rw [Chain.slotCount, hlength]
    simp only [Chain.slotOf, Chain.close]
    omega
  · simp only [Array.size_push, h.pieces_size, hlength]
    omega
  · simp only [Array.size_push, h.slots_size]

/-- **One more complete chain** behind those that an overlay is made of. -/
theorem Laid.close {cs : List (Chain K)} (h : Laid o cs) (hg : Grows o o') (hc : Growing o' c)
    (hstart : c.start = o.nodes.size) (hoffset : c.offset = o.pieces.size) (hne : c.points ≠ [])
    (part : Part K) :
    Laid (o'.pushPart c.road (c.node o'.firstNode c.points.length) c.road.adj part)
      (cs ++ [c.close part]) := by
  have hgrows : Grows o' (o'.pushPart c.road (c.node o'.firstNode c.points.length) c.road.adj part) :=
    grows_pushPair _ _ _ _ _ _ _
  obtain ⟨hcarries, hnodes, hpieces, hslots⟩ := hc.close part
  have hpos : 0 < c.points.length := List.length_pos_iff.2 hne
  refine ⟨fun c' hc' => ?_, fun c' hc' => ?_, fun c' hc' => ?_, fun i hi => ?_, fun i hi => ?_, ?_⟩
  · obtain hc' | hc' := List.mem_append.1 hc'
    · exact (h.carries c' hc').mono (hg.trans hgrows)
    · exact List.mem_singleton.1 hc' ▸ hcarries
  · obtain hc' | hc' := List.mem_append.1 hc'
    · exact h.points_ne c' hc'
    · exact List.mem_singleton.1 hc' ▸ hne
  · obtain hc' | hc' := List.mem_append.1 hc'
    · exact h.parts_length c' hc'
    · rw [List.mem_singleton.1 hc']
      simp [Chain.close, hc.parts_length]
  · -- What was not there before belongs to the new chain.
    by_cases hlt : i < o.nodes.size
    · obtain ⟨c', hc', hj⟩ := h.exists_node i hlt
      exact ⟨c', List.mem_append_left _ hc', hj⟩
    · rw [hnodes] at hi
      refine ⟨c.close part, by simp, i - c.start, ?_, ?_⟩
      · simp only [Chain.close]
        omega
      · simp only [Chain.close]
        omega
  · by_cases hlt : i < o.pieces.size
    · obtain ⟨c', hc', hj⟩ := h.exists_piece i hlt
      exact ⟨c', List.mem_append_left _ hc', hj⟩
    · rw [hpieces] at hi
      exact ⟨c.close part, by simp,
        (c.close part).exists_place (hoffset ▸ Nat.le_of_not_lt hlt) hi⟩
  · rw [hslots, hnodes]
    simp only [Chain.slotOf]
    omega

end Overlay

end RoadSplice

/-
  RoadSplice.Proofs.Overlay.Lookup — reading an overlay that is made of chains.

  Every virtual node, slot, id and place of such an overlay belongs to a node or a part of one of
  its chains; what it holds there is what the chain says.
-/
import Mathlib.Data.List.Nodup
import RoadSplice.Proofs.Overlay.Chain

namespace RoadSplice.Overlay

variable {K : Type} {o : Overlay K} {cs : List (Chain K)} {c c' : Chain K}

/-! ## §1. Nodes. -/

theorem node?_of_lt {n : NodeId} (h : n < o.firstNode) : o.node? n = none := if_pos h

theorem isVirtualNode_of_lt {n : NodeId} (h : n < o.firstNode) : o.isVirtualNode n = false := by
  simp [isVirtualNode, node?_of_lt h]

/-- The virtual nodes of a chain. -/
theorem Laid.node?_virtual (h : o.Laid cs) (hc : c ∈ cs) {j : Nat} (hj : j < c.points.length) :
    o.node? (c.node o.firstNode (j + 1)) = some ⟨c.points[j], c.road.edge⟩ := by
  unfold node?
  rw [c.node_virtual _ hj, if_neg (Nat.not_lt.2 (Nat.le_add_right _ _)), Nat.add_sub_cancel_left]
  exact (h.carries c hc).node j _ (List.getElem?_eq_getElem hj)

theorem Laid.isVirtualNode_virtual (h : o.Laid cs) (hc : c ∈ cs) {j : Nat}
    (hj : j < c.points.length) : o.isVirtualNode (c.node o.firstNode (j + 1)) = true := by
  simp [isVirtualNode, h.node?_virtual hc hj]

/-- Virtual nodes are numbered after those of the graph below. -/
theorem exists_of_isVirtualNode {n : NodeId} (hn : o.isVirtualNode n = true) :
    ∃ m < o.nodeCount, n = o.firstNode + m := by
  obtain ⟨v, hv⟩ := Option.isSome_iff_exists.1 (show (o.node? n).isSome = true from hn)
  unfold node? at hv
  split at hv
  · cases hv
  · rename_i hle
    obtain ⟨m, rfl⟩ := Nat.exists_eq_add_of_le (Nat.le_of_not_lt hle)
    rw [Nat.add_sub_cancel_left] at hv
    exact ⟨m, (Array.getElem?_eq_some_iff.1 hv).1, rfl⟩

/-- **Every virtual node belongs to a chain.** -/
theorem Laid.exists_of_isVirtualNode (h : o.Laid cs) {n : NodeId} (hn : o.isVirtualNode n = true) :
    ∃ c ∈ cs, ∃ j, j < c.points.length ∧ n = c.node o.firstNode (j + 1) := by
  obtain ⟨m, hlt, rfl⟩ := Overlay.exists_of_isVirtualNode hn
  obtain ⟨c, hc, j, hj, rfl⟩ := h.exists_node m hlt
  exact ⟨c, hc, j, hj, (c.node_virtual _ hj).symm⟩

theorem lt_of_not_isVirtualNode {n : NodeId}
    (hn : n < o.firstNode + o.nodeCount) (hreal : o.isVirtualNode n = false) : n < o.firstNode := by
  refine Nat.lt_of_not_le fun hle => ?_
  have hlt : n - o.firstNode < o.nodes.size := by
    unfold nodeCount at hn
    exact Nat.sub_lt_left_of_lt_add hle hn
  simp [isVirtualNode, node?, Nat.not_lt.2 hle, hlt] at hreal

/-! ## §2. Slots. -/

theorem Laid.slotCount_eq (h : o.Laid cs) (hc : c ∈ cs) : c.slotCount = 4 * c.points.length := by
  have hparts := h.parts_length c hc
  have hpos := List.length_pos_iff.2 (h.points_ne c hc)
  unfold Chain.slotCount
  omega

theorem Laid.slotOf?_virtual (h : o.Laid cs) (hc : c ∈ cs) {j : Nat} (hj : j < c.points.length)
    (slot : Slot) :
    o.slotOf? (c.node o.firstNode (j + 1)) slot = some (c.slotValue (4 * j + slot.offset)) := by
  have hlt : slot.offset < 4 := by cases slot <;> decide
  unfold slotOf?
  rw [c.node_virtual _ hj, if_neg (Nat.not_lt.2 (Nat.le_add_right _ _)), Nat.add_sub_cancel_left]
  have hslot := (h.carries c hc).slot (4 * j + slot.offset) (by
    rw [h.slotCount_eq hc]
    omega)
  rw [← hslot, show (c.start + j) * slotsPerNode + slot.offset =
    4 * c.start + (4 * j + slot.offset) by unfold slotsPerNode; omega]

/-- **What the four slots name.** -/
theorem Laid.slots_virtual (h : o.Laid cs) (hc : c ∈ cs) {j : Nat} (hj : j < c.points.length) :
    o.slotOf? (c.node o.firstNode (j + 1)) .baseToSnap = some (c.place j false) ∧
      o.slotOf? (c.node o.firstNode (j + 1)) .snapToBase = some (c.place j true) ∧
      o.slotOf? (c.node o.firstNode (j + 1)) .snapToAdj = some (c.place (j + 1) false) ∧
      o.slotOf? (c.node o.firstNode (j + 1)) .adjToSnap = some (c.place (j + 1) true) := by
  simp only [h.slotOf?_virtual hc hj, Slot.offset, Chain.slotValue, Chain.place,
    Option.some.injEq, Bool.toNat_false, Bool.toNat_true]
  omega

theorem Laid.leaving_virtual (h : o.Laid cs) (hc : c ∈ cs) {j : Nat} (hj : j < c.points.length) :
    o.leaving (c.node o.firstNode (j + 1)) = [c.place j true, c.place (j + 1) false] := by
  obtain ⟨-, hback, hon, -⟩ := h.slots_virtual hc hj
  simp [leaving, hback, hon]

/-! ## §3. Pieces. -/

/-- The piece of a part. -/
theorem Laid.piece?_place (h : o.Laid cs) (hc : c ∈ cs) {j : Nat} {part : Part K}
    (hpart : c.parts[j]? = some part) (back : Bool) :
    o.piece? (c.place j back) = some (c.piece o.firstNode o.firstEdge j part back) :=
  (h.carries c hc).piece j part back hpart

theorem Laid.exists_part (h : o.Laid cs) (hc : c ∈ cs) {j : Nat} (hj : j ≤ c.points.length) :
    ∃ part, c.parts[j]? = some part := by
  have hlt : j < c.parts.length := by
    rw [h.parts_length c hc]
    exact Nat.lt_succ_of_le hj
  exact ⟨_, List.getElem?_eq_getElem hlt⟩

/-- **Every place belongs to a part of a chain.** -/
theorem Laid.exists_of_piece? (h : o.Laid cs) {i : Nat} {p : Piece K} (hp : o.piece? i = some p) :
    ∃ c ∈ cs, ∃ j part back, c.parts[j]? = some part ∧ i = c.place j back ∧
      p = c.piece o.firstNode o.firstEdge j part back := by
  obtain ⟨c, hc, j, back, hj, rfl⟩ := h.exists_piece i (Array.getElem?_eq_some_iff.1 hp).1
  have hpart : c.parts[j]? = some _ := List.getElem?_eq_getElem hj
  refine ⟨c, hc, j, _, back, hpart, rfl, ?_⟩
  simpa [hp] using h.piece?_place hc hpart back

/-- An id leads back to the place of its piece. -/
theorem Laid.index?_id (h : o.Laid cs) (hc : c ∈ cs) {j : Nat} {part : Part K}
    (hpart : c.parts[j]? = some part) (back : Bool) :
    o.index? (c.piece o.firstNode o.firstEdge j part back).id = some (c.place j back) := by
  have hj : j < c.parts.length := (List.getElem?_eq_some_iff.1 hpart).1
  have hparts := h.parts_length c hc
  have hpos := List.length_pos_iff.2 (h.points_ne c hc)
  have hslot := fun i hi => (h.carries c hc).slot i (h.slotCount_eq hc ▸ hi)
  obtain ⟨hfalse, htrue⟩ := c.slotValue_slotOf j
  unfold index? Chain.piece
  cases back with
  | false =>
    have hread := hslot (Chain.slotOf j) (by unfold Chain.slotOf; omega)
    simp only [Bool.false_eq_true, ↓reduceIte]
    rw [if_neg (Nat.not_lt.2 (Nat.le_add_right _ _)), Nat.add_sub_cancel_left, hread, hfalse]
  | true =>
    have hread := hslot (Chain.slotOf j + 1) (by unfold Chain.slotOf; omega)
    simp only [↓reduceIte]
    rw [Nat.add_assoc, if_neg (Nat.not_lt.2 (Nat.le_add_right _ _)), Nat.add_sub_cancel_left,
      Nat.add_assoc, hread, htrue]

theorem index?_of_lt {e : EdgeId} (h : e < o.firstEdge) : o.index? e = none := if_pos h

/-- The ids of an overlay count its slots. -/
theorem index?_add (o : Overlay K) (s : Nat) : o.index? (o.firstEdge + s) = o.slots[s]? := by
  unfold index?
  rw [if_neg (Nat.not_lt.2 (Nat.le_add_right _ _)), Nat.add_sub_cancel_left]

/-- A place that an id names stands in the table of slots. -/
theorem mem_slots_of_index? {e : EdgeId} {i : Nat} (h : o.index? e = some i) : i ∈ o.slots := by
  unfold index? at h
  split at h
  · cases h
  · exact Array.mem_of_getElem? h

/-- **Every slot names a part of a chain.** -/
theorem Laid.exists_of_index? (h : o.Laid cs) {e : EdgeId} {i : Nat} (hi : o.index? e = some i) :
    ∃ c ∈ cs, ∃ j part back, c.parts[j]? = some part ∧ i = c.place j back := by
  unfold index? at hi
  split at hi
  · simp at hi
  · obtain ⟨s, hs⟩ : ∃ s : Nat, e - o.firstEdge = s := ⟨_, rfl⟩
    rw [hs] at hi
    have hlt : s < 4 * o.nodes.size := h.slots_size ▸ (Array.getElem?_eq_some_iff.1 hi).1
    -- A virtual node has four slots, so the number of a slot tells the node.
    obtain ⟨c, hc, j, hj, hnode⟩ := h.exists_node (s / 4) (by omega)
    have hslot := (h.carries c hc).slot (4 * j + s % 4) (by
      rw [h.slotCount_eq hc]
      omega)
    rw [show 4 * c.start + (4 * j + s % 4) = s by omega, hi] at hslot
    have hplace : i = c.place (j + s % 4 / 2) (s % 2 = 1) := by
      obtain rfl : i = c.slotValue (4 * j + s % 4) := by simpa using hslot
      unfold Chain.slotValue Chain.place
      rcases Nat.mod_two_eq_zero_or_one s with hmod | hmod
      · simp [hmod]
        omega
      · simp [hmod]
        omega
    obtain ⟨part, hpart⟩ := h.exists_part hc (j := j + s % 4 / 2) (by omega)
    exact ⟨c, hc, _, part, _, hpart, hplace⟩

/-! ## §4. No two names for one part. -/

theorem Chain.place_inj {c : Chain K} {j j' : Nat} {back back' : Bool}
    (h : c.place j back = c.place j' back') : j = j' ∧ back = back' := by
  unfold Chain.place at h
  cases back <;> cases back' <;> simp at h ⊢ <;> omega

/-- **Places tell parts apart**, where no two chains lie on one road. -/
theorem Laid.place_inj (h : o.Laid cs) (hdistinct : (cs.map (·.road.edge)).Nodup) (hc : c ∈ cs)
    (hc' : c' ∈ cs) {j j' : Nat} {part part' : Part K} {back back' : Bool}
    (hpart : c.parts[j]? = some part) (hpart' : c'.parts[j']? = some part')
    (hplace : c.place j back = c'.place j' back') : c = c' ∧ j = j' ∧ back = back' := by
  have hp := h.piece?_place hc hpart back
  rw [hplace, h.piece?_place hc' hpart' back', Option.some.injEq] at hp
  have hroad : c'.road.edge = c.road.edge := by
    have := congrArg Piece.road hp
    cases back <;> cases back' <;> exact this
  obtain rfl : c' = c := List.inj_on_of_nodup_map hdistinct hc' hc hroad
  exact ⟨rfl, Chain.place_inj hplace⟩

/-! ## §5. The pieces of a road. -/

/-- The entries of a list, read one after the other. -/
theorem filterMap_range_getElem? {α : Type} (xs : List α) :
    (List.range xs.length).filterMap (xs[·]?) = xs := by
  induction xs with
  | nil => rfl
  | cons x xs ih =>
    rw [List.length_cons, List.range_succ_eq_map, List.filterMap_cons, List.filterMap_map]
    simpa using ih

/-- The places of the pieces of a road in one direction, in ascending order. -/
def placesOf (o : Overlay K) (road : EdgeId) (reverse : Bool) : List Nat :=
  (List.range o.pieces.size).filter fun i =>
    (o.piece? i).any fun p => p.road == road && p.reverse == reverse

theorem mem_placesOf {e : EdgeId} {r : Bool} {i : Nat} :
    i ∈ o.placesOf e r ↔ ∃ p, o.piece? i = some p ∧ p.road = e ∧ p.reverse = r := by
  unfold placesOf
  rw [List.mem_filter, List.mem_range]
  constructor
  · rintro ⟨-, hany⟩
    cases hp : o.piece? i with
    | none => simp [hp] at hany
    | some p => exact ⟨p, rfl, by simpa [hp] using hany⟩
  · rintro ⟨p, hp, rfl, rfl⟩
    exact ⟨(Array.getElem?_eq_some_iff.1 hp).1, by simp [hp]⟩

/-- **The places of a chain** in one direction. -/
theorem Laid.placesOf_chain (h : o.Laid cs) (hdistinct : (cs.map (·.road.edge)).Nodup)
    (hc : c ∈ cs) (back : Bool) :
    o.placesOf c.road.edge (c.road.reverse != back) =
      (List.range c.parts.length).map (c.place · back) := by
  -- Both lists are ascending, so it is enough that they have the same members.
  have hsorted : (o.placesOf c.road.edge (c.road.reverse != back)).Pairwise (· < ·) :=
    List.pairwise_lt_range.filter _
  have hsorted' : ((List.range c.parts.length).map (c.place · back)).Pairwise (· < ·) := by
    rw [List.pairwise_map]
    refine List.pairwise_lt_range.imp fun {a b} hlt => ?_
    unfold Chain.place
    omega
  refine List.Perm.eq_of_pairwise (fun a b _ _ hab hba => absurd hba (Nat.lt_asymm hab)) hsorted hsorted' ?_
  refine (List.perm_ext_iff_of_nodup (hsorted.imp Nat.ne_of_lt) (hsorted'.imp Nat.ne_of_lt)).2
    fun i => ?_
  rw [mem_placesOf, List.mem_map]
  constructor
  · rintro ⟨p, hp, hroad, hreverse⟩
    obtain ⟨c', hc', j, part, b, hpart, rfl, rfl⟩ := h.exists_of_piece? hp
    have hedge : c'.road.edge = c.road.edge := by
      cases b <;> exact hroad
    obtain rfl : c' = c := List.inj_on_of_nodup_map hdistinct hc' hc hedge
    have hb : b = back := by
      have hrev : (c'.road.reverse != b) = (c'.road.reverse != back) := by
        rw [← hreverse]
        cases b <;> simp [Chain.piece]
      simpa using hrev
    exact ⟨j, List.mem_range.2 (List.getElem?_eq_some_iff.1 hpart).1, by rw [hb]⟩
  · rintro ⟨j, hj, rfl⟩
    have hpart : c.parts[j]? = some _ := List.getElem?_eq_getElem (List.mem_range.1 hj)
    exact ⟨_, h.piece?_place hc hpart back, by cases back <;> rfl, by
      cases back <;> simp [Chain.piece]⟩

/-- A road without a chain has no pieces. -/
theorem Laid.placesOf_uncut (h : o.Laid cs) {e : EdgeId} (he : ∀ c ∈ cs, c.road.edge ≠ e)
    (r : Bool) : o.placesOf e r = [] := by
  refine List.eq_nil_iff_forall_not_mem.2 fun i hi => ?_
  obtain ⟨p, hp, hroad, -⟩ := mem_placesOf.1 hi
  obtain ⟨c, hc, j, part, b, -, -, rfl⟩ := h.exists_of_piece? hp
  exact he c hc (by cases b <;> exact hroad)

end RoadSplice.Overlay

/-
  RoadSplice.Proofs.Overlay.Representation — how the tables of an overlay hang together.

  Slots are only ever filled at the end: two for a new part, two more that repeat it for the next
  virtual node, and two for the last part of a road.  Nothing in a slot says which node it belongs
  to.  That the four slots of a node name the parts beside it, that ids find their own pieces and
  that the two pieces of a part know each other follows from where the chains put them.
-/
import RoadSplice.Proofs.Overlay.OneRoad

namespace RoadSplice

variable {K : Type}

/-! ## §1. What the tables should say. -/

/-- The same part of the same road, in the opposite direction. -/
structure Piece.Opposite (p q : Piece K) : Prop where
  base : q.base = p.adj
  adj : q.adj = p.base
  reverse : q.reverse = !p.reverse
  shape : q.shape = p.shape.reverse
  distance : q.distance = p.distance
  road : q.road = p.road

/-- The two pieces of a part of a chain. -/
theorem Chain.opposite_piece (c : Chain K) (n e j : Nat) (part : Part K) (back : Bool) :
    (c.piece n e j part back).Opposite (c.piece n e j part (!back)) := by
  cases back with
  | false => exact ⟨rfl, rfl, rfl, rfl, rfl, rfl⟩
  | true => exact ⟨rfl, rfl, (Bool.not_not _).symm, (Polyline.reverse_reverse _).symm, rfl, rfl⟩

theorem Chain.pair_piece (c : Chain K) (n e j : Nat) (part : Part K) (back : Bool) :
    (c.piece n e j part back).pair = c.place j (!back) := by
  cases back <;> rfl

namespace Overlay

/-- Two slots of a virtual node name a piece that ends there and the piece paired with it, which
starts there. -/
def Beside (o : Overlay K) (n : NodeId) (toward away : Slot) : Prop :=
  ∃ i j p q, o.slotOf? n toward = some i ∧ o.slotOf? n away = some j ∧
    o.piece? i = some p ∧ o.piece? j = some q ∧ p.adj = n ∧ q.base = n ∧ p.pair = j ∧ q.pair = i

/-- **Tables that hang together.** -/
structure WellLinked (o : Overlay K) : Prop where
  edgeCount_eq : o.edgeCount = 4 * o.nodeCount
  slot : ∀ s, s < o.edgeCount → ∃ i p, o.slots[s]? = some i ∧ o.piece? i = some p
  /-- Pairing is an involution without fixed points, and turns a piece round. -/
  pair : ∀ i p, o.piece? i = some p →
    p.pair ≠ i ∧ ∃ q, o.piece? p.pair = some q ∧ q.pair = i ∧ p.Opposite q
  id : ∀ i p, o.piece? i = some p →
    o.firstEdge ≤ p.id ∧ p.id < o.firstEdge + o.edgeCount ∧ o.index? p.id = some i
  beside : ∀ m, m < o.nodeCount →
    o.Beside (o.firstNode + m) .baseToSnap .snapToBase ∧
      o.Beside (o.firstNode + m) .adjToSnap .snapToAdj
  /-- The virtual nodes of a road follow one another. -/
  together : ∀ (a m b : Nat) u v, a ≤ m → m ≤ b → o.nodes[a]? = some u → o.nodes[b]? = some v →
    u.road = v.road → ∃ x, o.nodes[m]? = some x ∧ x.road = u.road
  /-- Two neighbours name the part between them alike. -/
  shared : ∀ (m : Nat) u v, o.nodes[m]? = some u → o.nodes[m + 1]? = some v → u.road = v.road →
    o.slotOf? (o.firstNode + m) .snapToAdj = o.slotOf? (o.firstNode + (m + 1)) .baseToSnap ∧
      o.slotOf? (o.firstNode + m) .adjToSnap = o.slotOf? (o.firstNode + (m + 1)) .snapToBase
  /-- A road with so many virtual nodes has one part more, and two pieces for each. -/
  owned : ∀ (m : Nat) u, o.nodes[m]? = some u →
    o.pieces.countP (·.road == u.road) = 2 * (o.nodes.countP (·.road == u.road) + 1)

/-! ## §2. Counting along a stretch. -/

/-- Entries that lie next to one another are as many as their places. -/
theorem countP_of_stretch {α : Type} {xs : Array α} {P : α → Bool} {a n : Nat}
    (h : ∀ i, (∃ x, xs[i]? = some x ∧ P x = true) ↔ a ≤ i ∧ i < a + n) : xs.countP P = n := by
  have hcount : xs.countP P =
      ((List.range xs.size).filter fun i => (xs[i]?).any P).length := by
    have hread := filterMap_range_getElem? xs.toList
    rw [← Array.countP_toList, ← hread, List.countP_filterMap, List.countP_eq_length_filter]
    refine congrArg List.length (List.filter_congr fun i _ => ?_)
    rw [Array.getElem?_toList]
    cases xs[i]? <;> rfl
  have hperm : ((List.range xs.size).filter fun i => (xs[i]?).any P).Perm (List.range' a n) := by
    refine (List.perm_ext_iff_of_nodup (List.nodup_range.filter _) List.nodup_range').2 fun i => ?_
    rw [List.mem_filter, List.mem_range, List.mem_range'_1, ← h i, Option.any_eq_true]
    exact ⟨fun hi => hi.2, fun hi =>
      ⟨(Array.getElem?_eq_some_iff.1 hi.choose_spec.1).1, hi⟩⟩
  rw [hcount, hperm.length_eq, List.length_range']

/-! ## §3. Chains. -/

variable {o : Overlay K} {cs : List (Chain K)} {c : Chain K}

/-- The virtual nodes on the road of a chain. -/
theorem Laid.exists_node_iff (h : o.Laid cs) (hdistinct : (cs.map (·.road.edge)).Nodup)
    (hc : c ∈ cs) (m : Nat) :
    (∃ u, o.nodes[m]? = some u ∧ (u.road == c.road.edge) = true) ↔
      c.start ≤ m ∧ m < c.start + c.points.length := by
  constructor
  · rintro ⟨u, hu, hroad⟩
    obtain ⟨c', hc', j, hj, rfl⟩ := h.exists_node m (Array.getElem?_eq_some_iff.1 hu).1
    have hnode := (h.carries c' hc').node j _ (List.getElem?_eq_getElem hj)
    obtain rfl : u = ⟨c'.points[j], c'.road.edge⟩ := by simpa using hu.symm.trans hnode
    obtain rfl : c' = c := List.inj_on_of_nodup_map hdistinct hc' hc (by simpa using hroad)
    omega
  · rintro ⟨hle, hlt⟩
    obtain ⟨j, rfl⟩ := Nat.exists_eq_add_of_le hle
    have hj : j < c.points.length := by omega
    exact ⟨_, (h.carries c hc).node j _ (List.getElem?_eq_getElem hj), by simp⟩

/-- The pieces of the road of a chain. -/
theorem Laid.exists_piece_iff (h : o.Laid cs) (hdistinct : (cs.map (·.road.edge)).Nodup)
    (hc : c ∈ cs) (i : Nat) :
    (∃ p, o.pieces[i]? = some p ∧ (p.road == c.road.edge) = true) ↔
      c.offset ≤ i ∧ i < c.offset + 2 * (c.points.length + 1) := by
  have hparts := h.parts_length c hc
  constructor
  · rintro ⟨p, hp, hroad⟩
    obtain ⟨c', hc', j, part, back, hpart, rfl, rfl⟩ := h.exists_of_piece? hp
    have hedge : c'.road.edge = c.road.edge := by
      cases back <;> simpa [Chain.piece] using hroad
    obtain rfl : c' = c := List.inj_on_of_nodup_map hdistinct hc' hc hedge
    have hj : j < c'.parts.length := (List.getElem?_eq_some_iff.1 hpart).1
    cases back <;> simp only [Chain.place, Bool.toNat_false, Bool.toNat_true] <;> omega
  · rintro ⟨hle, hlt⟩
    obtain ⟨j, back, hj, rfl⟩ := c.exists_place hle (hparts ▸ hlt)
    refine ⟨_, h.piece?_place hc (List.getElem?_eq_getElem hj) back, ?_⟩
    cases back <;> simp [Chain.piece]

/-- A virtual node lies beside the part before it and the part behind it. -/
theorem Laid.beside (h : o.Laid cs) (hc : c ∈ cs) {j : Nat} (hj : j < c.points.length) :
    o.Beside (c.node o.firstNode (j + 1)) .baseToSnap .snapToBase ∧
      o.Beside (c.node o.firstNode (j + 1)) .adjToSnap .snapToAdj := by
  obtain ⟨hin, hback, hon, hagainst⟩ := h.slots_virtual hc hj
  obtain ⟨before, hbefore⟩ := h.exists_part hc (Nat.le_of_lt hj)
  obtain ⟨behind, hbehind⟩ := h.exists_part hc (Nat.succ_le_of_lt hj)
  constructor
  · exact ⟨_, _, _, _, hin, hback, h.piece?_place hc hbefore false, h.piece?_place hc hbefore true,
      rfl, rfl, rfl, rfl⟩
  · exact ⟨_, _, _, _, hagainst, hon, h.piece?_place hc hbehind true,
      h.piece?_place hc hbehind false, rfl, rfl, rfl, rfl⟩

/-- Every virtual node is that of a chain, and its road tells which. -/
theorem Laid.exists_chain_of_node (h : o.Laid cs) {m : Nat} {u : VirtualNode K}
    (hu : o.nodes[m]? = some u) : ∃ c ∈ cs, u.road = c.road.edge := by
  obtain ⟨c, hc, j, hj, rfl⟩ := h.exists_node m (Array.getElem?_eq_some_iff.1 hu).1
  have hnode := (h.carries c hc).node j _ (List.getElem?_eq_getElem hj)
  obtain rfl : u = ⟨c.points[j], c.road.edge⟩ := by simpa using hu.symm.trans hnode
  exact ⟨c, hc, rfl⟩

/-- Neighbours on one road name the part between them alike. -/
theorem Laid.slots_shared (h : o.Laid cs) (hc : c ∈ cs) {j : Nat}
    (hj : j + 1 < c.points.length) :
    o.slotOf? (o.firstNode + (c.start + j)) .snapToAdj =
        o.slotOf? (o.firstNode + (c.start + (j + 1))) .baseToSnap ∧
      o.slotOf? (o.firstNode + (c.start + j)) .adjToSnap =
        o.slotOf? (o.firstNode + (c.start + (j + 1))) .snapToBase := by
  obtain ⟨-, -, hon, hagainst⟩ := h.slots_virtual hc (Nat.lt_of_succ_lt hj)
  obtain ⟨hin, hback, -, -⟩ := h.slots_virtual hc hj
  rw [c.node_virtual o.firstNode (Nat.lt_of_succ_lt hj)] at hon hagainst
  rw [c.node_virtual o.firstNode hj] at hin hback
  exact ⟨hon.trans hin.symm, hagainst.trans hback.symm⟩

/-- An id that finds something is that of a slot. -/
theorem id_of_index? {e : EdgeId} {i : Nat} (h : o.index? e = some i) :
    o.firstEdge ≤ e ∧ e < o.firstEdge + o.edgeCount := by
  refine ⟨?_, ?_⟩
  · refine Nat.le_of_not_lt fun hlt => ?_
    rw [index?_of_lt hlt] at h
    cases h
  · unfold index? at h
    split at h
    · cases h
    · rename_i hle
      have hlt := (Array.getElem?_eq_some_iff.1 h).1
      exact (Nat.sub_lt_iff_lt_add' (Nat.le_of_not_lt hle)).1 hlt

/-- **An overlay of chains on different roads hangs together.** -/
theorem Laid.wellLinked (h : o.Laid cs) (hdistinct : (cs.map (·.road.edge)).Nodup) :
    o.WellLinked := by
  refine ⟨h.slots_size, ?slot, ?pair, ?id, ?beside, ?together, ?shared, ?owned⟩
  case slot =>
    intro s hs
    have hread : o.slots[s]? = some o.slots[s] := Array.getElem?_eq_getElem hs
    have hindex : o.index? (o.firstEdge + s) = some o.slots[s] := (o.index?_add s).trans hread
    obtain ⟨c, hc, j, part, back, hpart, hplace⟩ := h.exists_of_index? hindex
    exact ⟨_, _, hread, hplace ▸ h.piece?_place hc hpart back⟩
  case pair =>
    intro i p hp
    obtain ⟨c, hc, j, part, back, hpart, rfl, rfl⟩ := h.exists_of_piece? hp
    rw [Chain.pair_piece]
    refine ⟨fun heq => ?_, _, h.piece?_place hc hpart (!back), ?_, c.opposite_piece _ _ _ _ _⟩
    · have := (Chain.place_inj heq).2
      simp at this
    · rw [Chain.pair_piece, Bool.not_not]
  case id =>
    intro i p hp
    obtain ⟨c, hc, j, part, back, hpart, rfl, rfl⟩ := h.exists_of_piece? hp
    have hindex := h.index?_id hc hpart back
    obtain ⟨hfirst, hlast⟩ := id_of_index? hindex
    exact ⟨hfirst, hlast, hindex⟩
  case beside =>
    intro m hm
    obtain ⟨c, hc, j, hj, rfl⟩ := h.exists_node m hm
    rw [← c.node_virtual o.firstNode hj]
    exact h.beside hc hj
  -- The nodes and the pieces of a road are those of its chain, which are a stretch of the tables.
  case together =>
    intro a m b u v ham hmb hu hv hroad
    obtain ⟨c, hc, huc⟩ := h.exists_chain_of_node hu
    have ha := (h.exists_node_iff hdistinct hc a).1 ⟨u, hu, by simp [huc]⟩
    have hb := (h.exists_node_iff hdistinct hc b).1 ⟨v, hv, by simp [← hroad, huc]⟩
    obtain ⟨x, hx, hxc⟩ := (h.exists_node_iff hdistinct hc m).2 ⟨by omega, by omega⟩
    exact ⟨x, hx, by rw [huc]; simpa using hxc⟩
  case shared =>
    intro m u v hu hv hroad
    obtain ⟨c, hc, huc⟩ := h.exists_chain_of_node hu
    have hm := (h.exists_node_iff hdistinct hc m).1 ⟨u, hu, by simp [huc]⟩
    have hm' := (h.exists_node_iff hdistinct hc (m + 1)).1 ⟨v, hv, by simp [← hroad, huc]⟩
    obtain ⟨j, rfl⟩ := Nat.exists_eq_add_of_le hm.1
    exact h.slots_shared hc (by omega)
  case owned =>
    intro m u hu
    obtain ⟨c, hc, huc⟩ := h.exists_chain_of_node hu
    rw [huc, countP_of_stretch (h.exists_node_iff hdistinct hc),
      countP_of_stretch (h.exists_piece_iff hdistinct hc)]

/-! ## §4. Deltas. -/

/-- **Deltas that fit their overlay**: they are at real nodes, and offer pieces that begin there,
each once. -/
structure DeltasFit (o : Overlay K) : Prop where
  real : ∀ r d, o.delta? r = some d → r < o.firstNode
  starts : ∀ r, ∀ i ∈ (o.deltaAt r).additions, ∃ p, o.piece? i = some p ∧ p.base = r
  nodup : ∀ r, (o.deltaAt r).additions.Nodup

theorem deltasFit_of_isEmpty (h : o.deltas.isEmpty = true) : o.DeltasFit := by
  have hnone : ∀ r, o.deltaAt r = Delta.none := fun r => Std.TreeMap.getD_of_isEmpty h
  refine ⟨fun r d hd => ?_, fun r i hi => ?_, fun r => ?_⟩
  · have hd : o.deltas[r]? = some d := hd
    rw [Std.TreeMap.getElem?_of_isEmpty h] at hd
    cases hd
  · simp [hnone, Delta.none] at hi
  · simp [hnone, Delta.none]

/-- One more offer. -/
theorem DeltasFit.offer (h : o.DeltasFit) {r : NodeId} {i : Nat} {p : Piece K}
    (hr : r < o.firstNode) (hp : o.piece? i = some p) (hbase : p.base = r) :
    (o.offer r i).DeltasFit := by
  refine ⟨fun r' d hd => ?_, fun r' j hj => ?_, fun r' => ?_⟩
  · obtain ⟨rfl, -⟩ | hd := getElem?_insert_cases hd
    · exact hr
    · exact h.real r' d hd
  · rw [deltaAt_offer] at hj
    split at hj
    · rename_i heq
      obtain hj | rfl := Delta.mem_add.1 hj
      · exact h.starts r' j (heq ▸ hj)
      · exact ⟨p, hp, hbase.trans heq⟩
    · exact h.starts r' j hj
  · rw [deltaAt_offer]
    split
    · exact Delta.nodup_add (h.nodup r) i
    · exact h.nodup r'

theorem WellLinked.withDeltas (h : o.WellLinked) (deltas : Std.TreeMap NodeId Delta) :
    (o.withDeltas deltas).WellLinked :=
  ⟨h.edgeCount_eq, h.slot, h.pair, h.id, h.beside, h.together, h.shared, h.owned⟩

/-- **Looking past an end of a virtual node**: the piece offered is the one that comes back. -/
theorem WellLinked.offerAcross_inv (h : o.WellLinked) (hfit : o.DeltasFit) {n : NodeId}
    {toward away : Slot} (hbeside : o.Beside n toward away) {o' : Overlay K}
    (hrun : o.offerAcross n away toward = .ok o') :
    (∃ deltas, o' = o.withDeltas deltas) ∧ o'.DeltasFit := by
  obtain ⟨i, j, p, q, hi, hj, hp, hq, -, -, hpair, -⟩ := hbeside
  obtain ⟨-, q', hq', -, hopposite⟩ := h.pair i p hp
  obtain rfl : q = q' := Option.some.inj (hq.symm.trans (hpair ▸ hq'))
  unfold offerAcross at hrun
  simp only [hj, hq, hi] at hrun
  split at hrun
  · rename_i hreal
    obtain rfl := Except.ok.inj hrun
    exact ⟨⟨_, rfl⟩, hfit.offer hreal hp hopposite.adj.symm⟩
  · obtain rfl := Except.ok.inj hrun
    exact ⟨⟨o.deltas, rfl⟩, hfit⟩

/-- Looking past an end of a virtual node finds what it looks for. -/
theorem Beside.exists_offerAcross {n : NodeId} {toward away : Slot} (h : o.Beside n toward away) :
    ∃ deltas, o.offerAcross n away toward = .ok (o.withDeltas deltas) := by
  obtain ⟨i, j, p, q, hi, hj, -, hq, -⟩ := h
  unfold offerAcross
  simp only [hj, hq, hi]
  split
  · exact ⟨_, rfl⟩
  · exact ⟨o.deltas, rfl⟩

/-- One can look around all virtual nodes. -/
theorem WellLinked.exists_offers (h : o.WellLinked) {is : List Nat}
    (his : ∀ i ∈ is, i < o.nodeCount) :
    ∃ o', is.foldlM (fun o i => o.offerAround (o.firstNode + i)) o = .ok o' := by
  induction is generalizing o with
  | nil => exact ⟨o, rfl⟩
  | cons i is ih =>
    have hi := his i (by simp)
    obtain ⟨deltas, hfirst⟩ := (h.beside i hi).1.exists_offerAcross
    have h₁ := h.withDeltas deltas
    obtain ⟨deltas', hsecond⟩ := (h₁.beside i hi).2.exists_offerAcross
    obtain ⟨o', ho'⟩ := ih (h₁.withDeltas deltas') fun j hj => his j (by simp [hj])
    refine ⟨o', ?_⟩
    rw [List.foldlM_cons]
    exact except_bind.2 ⟨_, except_bind.2 ⟨_, hfirst, hsecond⟩, ho'⟩

/-- **The deltas of tables that hang together** can be built. -/
theorem WellLinked.exists_buildDeltas (h : o.WellLinked) (hempty : o.deltas = ∅) :
    ∃ o', o.buildDeltas = .ok o' := by
  obtain ⟨o', ho'⟩ := h.exists_offers fun i hi => List.mem_range.1 hi
  have hsize : ¬ o.deltas.size ≠ 0 := by simp [hempty]
  unfold buildDeltas
  rw [if_neg hsize, ho']
  exact ⟨_, rfl⟩

/-- **Looking around virtual nodes**, one after the other. -/
theorem WellLinked.offers_inv (h : o.WellLinked) (hfit : o.DeltasFit) {is : List Nat}
    (his : ∀ i ∈ is, i < o.nodeCount) {o' : Overlay K}
    (hrun : is.foldlM (fun o i => o.offerAround (o.firstNode + i)) o = .ok o') :
    (∃ deltas, o' = o.withDeltas deltas) ∧ o'.DeltasFit := by
  induction is generalizing o with
  | nil =>
    obtain rfl := Except.ok.inj hrun
    exact ⟨⟨o.deltas, rfl⟩, hfit⟩
  | cons i is ih =>
    rw [List.foldlM_cons] at hrun
    obtain ⟨o₁, haround, hrun⟩ := except_bind.1 hrun
    obtain ⟨o₂, hfirst, hsecond⟩ := except_bind.1 haround
    have hi := his i (by simp)
    obtain ⟨⟨deltas₂, rfl⟩, hfit₂⟩ := h.offerAcross_inv hfit (h.beside i hi).1 hfirst
    have h₂ := h.withDeltas deltas₂
    obtain ⟨⟨deltas₁, rfl⟩, hfit₁⟩ := h₂.offerAcross_inv hfit₂ (h₂.beside i hi).2 hsecond
    obtain ⟨⟨deltas, rfl⟩, hfit'⟩ :=
      ih (h₂.withDeltas deltas₁) hfit₁ (fun j hj => his j (by simp [hj])) hrun
    exact ⟨⟨deltas, rfl⟩, hfit'⟩

/-- Changing what deltas withdraw, and not what they offer. -/
theorem DeltasFit.map (h : o.DeltasFit) {f : Delta → Delta}
    (hf : ∀ d, (f d).additions = d.additions) :
    (o.withDeltas (o.deltas.map fun _ d => f d)).DeltasFit := by
  have hread : ∀ r : NodeId, (o.deltas.map fun _ d => f d)[r]? = (o.deltas[r]?).map f := fun r =>
    Std.TreeMap.getElem?_map
  have hadditions : ∀ r, ((o.withDeltas (o.deltas.map fun _ d => f d)).deltaAt r).additions =
      (o.deltaAt r).additions := by
    intro r
    show ((o.deltas.map fun _ d => f d).getD r Delta.none).additions =
      (o.deltas.getD r Delta.none).additions
    rw [Std.TreeMap.getD_eq_getD_getElem?, Std.TreeMap.getD_eq_getD_getElem?, hread]
    cases o.deltas[r]? with
    | none => rfl
    | some d => exact hf d
  refine ⟨fun r d hd => ?_, fun r i hi => h.starts r i (hadditions r ▸ hi), fun r => ?_⟩
  · obtain ⟨d₀, hd₀, -⟩ := Option.map_eq_some_iff.1 ((hread r).symm.trans hd)
    exact h.real r d₀ hd₀
  · exact (hadditions r).symm ▸ h.nodup r

/-- **Building the deltas** changes nothing else, and they fit. -/
theorem WellLinked.buildDeltas_inv (h : o.WellLinked) {o' : Overlay K}
    (hrun : o.buildDeltas = .ok o') : (∃ deltas, o' = o.withDeltas deltas) ∧ o'.DeltasFit := by
  unfold buildDeltas at hrun
  split at hrun
  · simp [except_bind] at hrun
  · rename_i hsize
    have hempty : o.deltas.isEmpty = true := by
      rw [Std.TreeMap.isEmpty_eq_size_eq_zero]
      simpa using hsize
    obtain ⟨o₁, hoffers, hrun⟩ := except_bind.1 hrun
    obtain rfl := Except.ok.inj hrun
    obtain ⟨⟨deltas, rfl⟩, hfit⟩ := h.offers_inv (deltasFit_of_isEmpty hempty)
      (fun i hi => List.mem_range.1 hi) hoffers
    -- Withdrawing roads adds no offer.
    exact ⟨⟨_, rfl⟩, hfit.map fun d => (Delta.foldl_remove _ d).1⟩

/-! ## §5. Built overlays. -/

/-- **What every built overlay is like**: its tables hang together, its deltas fit, and its numbers
begin behind those of the graph. -/
theorem build_tables [Scalar K] {g : RoadGraph K} {snaps final : Array (Snap K)}
    (h : Overlay.build g snaps = (.ok o, final)) :
    o.WellLinked ∧ o.DeltasFit ∧ o.firstNode = g.nodeCount ∧ o.firstEdge = g.edgeCount := by
  obtain ⟨groups, prepared, spliced, cs, hs⟩ := Splicing.exists_buildSteps h
  have hlinked := hs.roads.laid.wellLinked hs.distinct
  obtain ⟨⟨deltas, rfl⟩, hfit⟩ := hlinked.buildDeltas_inv hs.deltas
  exact ⟨hlinked.withDeltas deltas, hfit, hs.firstNode_eq, hs.firstEdge⟩

/-- **The tables of every built overlay hang together.** -/
theorem build_wellLinked [Scalar K] {g : RoadGraph K} {snaps final : Array (Snap K)}
    (h : Overlay.build g snaps = (.ok o, final)) : o.WellLinked := (build_tables h).1

/-- The tables of a road that is cut twice. -/
theorem build_wellLinked_cutRoad :
    ∃ (o : Overlay Exact) (final : Array (Snap Exact)),
      Overlay.build (Splicing.cutRoad 0) Splicing.cutSnaps = (.ok o, final) ∧
        0 < o.nodeCount ∧ o.WellLinked := by
  obtain ⟨o, final, hbuild, h⟩ := Splicing.build_cutRoad 0
  exact ⟨o, final, hbuild, (Splicing.nodeCount_levelChain 0 h.laid).1, build_wellLinked hbuild⟩

end Overlay

end RoadSplice

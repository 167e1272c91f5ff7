/-
  RoadSplice.Proofs.Overlay.Deltas — what real nodes offer beside a chain.

  Each virtual node looks past its two ends.  Where it is the first of its chain, the base node
  of the road comes to offer the first part; where it is the last, the adjacent node comes to
  offer the last part, against the direction of the chain.  Nothing else is offered, and the
  roads withdrawn at a node are those of the chains that end there.
-/
import RoadSplice.Proofs.Overlay.Build
import RoadSplice.Proofs.Overlay.Lookup

namespace RoadSplice

/-! ## §1. Deltas. -/

namespace Delta

theorem mem_add {d : Delta} {p q : Nat} :
    q ∈ (d.add p).additions ↔ q ∈ d.additions ∨ q = p := by
  unfold add
  by_cases hp : p ∈ d.additions
  · simp only [List.contains_eq_mem, hp, decide_true, ↓reduceIte]
    exact ⟨.inl, fun h => h.elim id fun h => h ▸ hp⟩
  · simp [hp]

theorem nodup_add {d : Delta} (h : d.additions.Nodup) (p : Nat) : (d.add p).additions.Nodup := by
  unfold add
  by_cases hp : p ∈ d.additions
  · simpa [hp] using h
  · simp only [List.contains_eq_mem, hp, decide_false, Bool.false_eq_true, ↓reduceIte]
    exact List.nodup_append.2 ⟨h, by simp, by
      rintro q hq _ hq' rfl
      exact hp (List.mem_singleton.1 hq' ▸ hq)⟩

theorem removals_add (d : Delta) (p : Nat) : (d.add p).removals = d.removals := by
  unfold add
  split <;> rfl

theorem mem_remove {d : Delta} {e f : EdgeId} :
    f ∈ (d.remove e).removals ↔ f ∈ d.removals ∨ f = e := by
  unfold remove
  by_cases he : e ∈ d.removals
  · simp only [List.contains_eq_mem, he, decide_true, ↓reduceIte]
    exact ⟨.inl, fun h => h.elim id fun h => h ▸ he⟩
  · simp [he]

theorem additions_remove (d : Delta) (e : EdgeId) : (d.remove e).additions = d.additions := by
  unfold remove
  split <;> rfl

/-- Withdrawing some roads. -/
theorem foldl_remove (es : List EdgeId) (d : Delta) :
    (es.foldl remove d).additions = d.additions ∧
      ∀ f, f ∈ (es.foldl remove d).removals ↔ f ∈ d.removals ∨ f ∈ es := by
  induction es generalizing d with
  | nil => simp
  | cons e es ih =>
    obtain ⟨hadd, hrem⟩ := ih (d.remove e)
    refine ⟨hadd.trans (additions_remove d e), fun f => ?_⟩
    rw [List.foldl_cons, hrem, mem_remove, List.mem_cons, or_assoc]

end Delta

namespace Overlay

variable {K : Type} {o : Overlay K} {cs : List (Chain K)} {c c' : Chain K}

/-- The delta at a node, an empty one where there is none. -/
def deltaAt (o : Overlay K) (r : NodeId) : Delta := o.deltas.getD r Delta.none

theorem deltaAt_offer (o : Overlay K) (r r' : NodeId) (p : Nat) :
    (o.offer r p).deltaAt r' = if r = r' then (o.deltaAt r).add p else o.deltaAt r' := by
  unfold deltaAt offer
  simp only [Std.TreeMap.getD_insert, Std.LawfulEqCmp.compare_eq_iff_eq]

/-- The same overlay with other deltas. -/
def withDeltas (o : Overlay K) (deltas : Std.TreeMap NodeId Delta) : Overlay K :=
  { o with deltas := deltas }

theorem Laid.withDeltas (h : o.Laid cs) (deltas : Std.TreeMap NodeId Delta) :
    (o.withDeltas deltas).Laid cs :=
  ⟨fun c hc => ⟨(h.carries c hc).node, (h.carries c hc).piece, (h.carries c hc).slot⟩, h.points_ne,
    h.parts_length, h.exists_node, h.exists_piece, h.slots_size⟩

/-! ## §2. One virtual node. -/

/-- The real ends of the chains are real. -/
def RealEnds (o : Overlay K) (cs : List (Chain K)) : Prop :=
  ∀ c ∈ cs, c.road.base < o.firstNode ∧ c.road.adj < o.firstNode

theorem not_virtual_lt (c : Chain K) {n j : Nat} (hj : j < c.points.length) :
    ¬ c.node n (j + 1) < n := by
  rw [c.node_virtual n hj]
  exact Nat.not_lt.2 (Nat.le_add_right _ _)

/-- Looking back from a virtual node. -/
theorem Laid.offerAcross_base (h : o.Laid cs) (hreal : RealEnds o cs) (hc : c ∈ cs) {j : Nat}
    (hj : j < c.points.length) :
    o.offerAcross (c.node o.firstNode (j + 1)) .snapToBase .baseToSnap =
      .ok (if j = 0 then o.offer c.road.base (c.place 0 false) else o) := by
  obtain ⟨hback, hout, -, -⟩ := h.slots_virtual hc hj
  obtain ⟨part, hpart⟩ := h.exists_part hc (Nat.le_of_lt hj)
  have hpiece := h.piece?_place hc hpart true
  have hadj : (c.piece o.firstNode o.firstEdge j part true).adj = c.node o.firstNode j := rfl
  unfold offerAcross
  simp only [hout, hpiece, hback, hadj]
  cases j with
  | zero =>
    have hlt : c.node o.firstNode 0 < o.firstNode := (hreal c hc).1
    simp only [hlt, ↓reduceIte]
    rfl
  | succ j =>
    have hge := not_virtual_lt c (n := o.firstNode) (Nat.lt_of_succ_lt hj)
    simp only [hge, ↓reduceIte, Nat.succ_ne_zero]
    rfl

/-- Looking ahead from a virtual node. -/
theorem Laid.offerAcross_adj (h : o.Laid cs) (hreal : RealEnds o cs) (hc : c ∈ cs) {j : Nat}
    (hj : j < c.points.length) :
    o.offerAcross (c.node o.firstNode (j + 1)) .snapToAdj .adjToSnap =
      .ok (if j + 1 = c.points.length then
          o.offer c.road.adj (c.place c.points.length true) else o) := by
  obtain ⟨-, -, hout, hback⟩ := h.slots_virtual hc hj
  obtain ⟨part, hpart⟩ := h.exists_part hc hj
  have hpiece := h.piece?_place hc hpart false
  have hadj : (c.piece o.firstNode o.firstEdge (j + 1) part false).adj =
      c.node o.firstNode (j + 2) := rfl
  unfold offerAcross
  simp only [hout, hpiece, hback, hadj]
  -- Only the last virtual node of a chain is next to the real one at its end.
  by_cases hlast : j + 1 = c.points.length
  · have hnode : c.node o.firstNode (j + 2) = c.road.adj := by
      rw [← c.node_last o.firstNode, ← hlast]
    have hlt : c.road.adj < o.firstNode := (hreal c hc).2
    simp only [hnode, hlt, ↓reduceIte, hlast]
    rfl
  · have hge := not_virtual_lt c (n := o.firstNode) (j := j + 1) (by omega)
    simp only [hge, ↓reduceIte, hlast]
    rfl

/-- What a virtual node, by its number among them, makes a real node offer. -/
def OffersAt (cs : List (Chain K)) (i : Nat) (r : NodeId) (p : Nat) : Prop :=
  ∃ c ∈ cs, ∃ j, j < c.points.length ∧ i = c.start + j ∧
    ((j = 0 ∧ c.road.base = r ∧ p = c.place 0 false) ∨
      (j + 1 = c.points.length ∧ c.road.adj = r ∧ p = c.place c.points.length true))

/-- Nodes of chains are told apart by their numbers. -/
theorem Laid.node_inj (h : o.Laid cs) (hdistinct : (cs.map (·.road.edge)).Nodup) (hc : c ∈ cs)
    (hc' : c' ∈ cs) {j j' : Nat} (hj : j < c.points.length) (hj' : j' < c'.points.length)
    (heq : c.start + j = c'.start + j') : c = c' ∧ j = j' := by
  have hn := (h.carries c hc).node j _ (List.getElem?_eq_getElem hj)
  rw [heq, (h.carries c' hc').node j' _ (List.getElem?_eq_getElem hj'), Option.some.injEq] at hn
  obtain rfl : c' = c := List.inj_on_of_nodup_map hdistinct hc' hc (congrArg VirtualNode.road hn)
  exact ⟨rfl, by omega⟩

/-- What the deltas offer so far. -/
structure Offered (o : Overlay K) (offers : NodeId → Nat → Prop) : Prop where
  mem : ∀ r p, p ∈ (o.deltaAt r).additions ↔ offers r p
  nodup : ∀ r, (o.deltaAt r).additions.Nodup
  removals : ∀ r, (o.deltaAt r).removals = []

theorem Offered.offer {offers : NodeId → Nat → Prop} (h : Offered o offers) (r : NodeId) (p : Nat) :
    Offered (o.offer r p) fun r' p' => offers r' p' ∨ (r = r' ∧ p' = p) := by
  refine ⟨fun r' p' => ?_, fun r' => ?_, fun r' => ?_⟩ <;> rw [deltaAt_offer] <;> split
  · rename_i heq
    rw [Delta.mem_add, h.mem, heq]
    simp
  · rename_i hne
    simp [h.mem, hne]
  · exact Delta.nodup_add (h.nodup r) p
  · exact h.nodup r'
  · rw [Delta.removals_add, h.removals]
  · exact h.removals r'

theorem Offered.congr {offers offers' : NodeId → Nat → Prop} (h : Offered o offers)
    (heq : ∀ r p, offers r p ↔ offers' r p) : Offered o offers' :=
  ⟨fun r p => (h.mem r p).trans (heq r p), h.nodup, h.removals⟩

/-- An offer that is made under a condition. -/
theorem Offered.offer_if {offers : NodeId → Nat → Prop} (h : Offered o offers) (P : Prop)
    [Decidable P] (r : NodeId) (p : Nat) :
    ∃ deltas, (if P then o.offer r p else o) = o.withDeltas deltas ∧
      Offered (o.withDeltas deltas) fun r' p' => offers r' p' ∨ (P ∧ r = r' ∧ p' = p) := by
  by_cases hP : P
  · exact ⟨_, if_pos hP, (h.offer r p).congr fun r' p' => by simp [hP]⟩
  · exact ⟨o.deltas, if_neg hP, h.congr fun r' p' => by simp [hP]⟩

/-- **One virtual node** makes the real nodes beside it offer its two sides. -/
theorem Offered.offerAround {offers : NodeId → Nat → Prop} (h : Offered o offers)
    (hlaid : o.Laid cs) (hdistinct : (cs.map (·.road.edge)).Nodup) (hreal : RealEnds o cs)
    {i : Nat} (hi : i < o.nodeCount) :
    ∃ deltas, o.offerAround (o.firstNode + i) = .ok (o.withDeltas deltas) ∧
      Offered (o.withDeltas deltas) fun r p => offers r p ∨ OffersAt cs i r p := by
  obtain ⟨c, hc, j, hj, rfl⟩ := hlaid.exists_node i hi
  have hnode : o.firstNode + (c.start + j) = c.node o.firstNode (j + 1) :=
    (c.node_virtual _ hj).symm
  -- No other chain has this virtual node.
  have hat : ∀ r p, OffersAt cs (c.start + j) r p ↔
      ((j = 0 ∧ c.road.base = r ∧ p = c.place 0 false) ∨
        (j + 1 = c.points.length ∧ c.road.adj = r ∧ p = c.place c.points.length true)) := by
    intro r p
    constructor
    · rintro ⟨c', hc', j', hj', heq, hor⟩
      obtain ⟨rfl, rfl⟩ := hlaid.node_inj hdistinct hc hc' hj hj' heq
      exact hor
    · exact fun hor => ⟨c, hc, j, hj, rfl, hor⟩
  obtain ⟨deltas, heq, hoffered⟩ := h.offer_if (j = 0) c.road.base (c.place 0 false)
  obtain ⟨deltas', heq', hoffered'⟩ := hoffered.offer_if (j + 1 = c.points.length) c.road.adj
    (c.place c.points.length true)
  refine ⟨deltas', ?_, hoffered'.congr fun r p => ?_⟩
  · have hfirst := hlaid.offerAcross_base hreal hc hj
    have hsecond := (hlaid.withDeltas deltas).offerAcross_adj hreal hc hj
    rw [heq] at hfirst
    rw [heq'] at hsecond
    unfold Overlay.offerAround
    rw [hnode, hfirst]
    exact hsecond
  · rw [hat, or_assoc]

/-! ## §3. All virtual nodes. -/

/-- **All virtual nodes** up to some number. -/
theorem Laid.offerAll (h : o.Laid cs) (hdistinct : (cs.map (·.road.edge)).Nodup)
    (hreal : RealEnds o cs) (hempty : o.deltas = ∅) {n : Nat} (hn : n ≤ o.nodeCount) :
    ∃ deltas, (List.range n).foldlM (fun o i => o.offerAround (o.firstNode + i)) o =
        .ok (o.withDeltas deltas) ∧
      Offered (o.withDeltas deltas) fun r p => ∃ i, i < n ∧ OffersAt cs i r p := by
  -- Induction on the number of virtual nodes that have been looked at.
  induction n with
  | zero =>
    have hnone : ∀ r, (o.withDeltas o.deltas).deltaAt r = Delta.none := fun r => by
      show o.deltas.getD r Delta.none = _
      rw [hempty]
      exact Std.TreeMap.getD_emptyc
    refine ⟨o.deltas, rfl, fun r p => ?_, fun r => ?_, fun r => ?_⟩ <;> simp [hnone, Delta.none]
  | succ n ih =>
    obtain ⟨deltas, heq, hoffered⟩ := ih (Nat.le_of_succ_le hn)
    obtain ⟨deltas', heq', hoffered'⟩ := hoffered.offerAround (h.withDeltas deltas) hdistinct hreal
      (i := n) hn
    refine ⟨deltas', ?_, hoffered'.congr fun r p => ?_⟩
    · rw [List.range_succ, List.foldlM_append, heq]
      show (o.withDeltas deltas).offerAround (o.firstNode + n) >>= pure = _
      rw [bind_pure]
      exact heq'
    · constructor
      · rintro (⟨i, hi, hat⟩ | hat)
        · exact ⟨i, Nat.lt_succ_of_lt hi, hat⟩
        · exact ⟨n, Nat.lt_succ_self n, hat⟩
      · rintro ⟨i, hi, hat⟩
        obtain hi | rfl := Nat.lt_succ_iff_lt_or_eq.1 hi
        · exact .inl ⟨i, hi, hat⟩
        · exact .inr hat

/-- The end part of a chain that a real node offers. -/
def EndPlace (cs : List (Chain K)) (r : NodeId) (p : Nat) : Prop :=
  ∃ c ∈ cs, (c.road.base = r ∧ p = c.place 0 false) ∨
    (c.road.adj = r ∧ p = c.place c.points.length true)

theorem Laid.endPlace_iff (h : o.Laid cs) {r : NodeId} {p : Nat} :
    (∃ i, i < o.nodeCount ∧ OffersAt cs i r p) ↔ EndPlace cs r p := by
  have hlt : ∀ c ∈ cs, ∀ j, j < c.points.length → c.start + j < o.nodeCount := fun c hc j hj =>
    (Array.getElem?_eq_some_iff.1 ((h.carries c hc).node j _ (List.getElem?_eq_getElem hj))).1
  constructor
  · rintro ⟨i, -, c, hc, j, hj, rfl, ⟨-, hor⟩ | ⟨-, hor⟩⟩
    · exact ⟨c, hc, .inl hor⟩
    · exact ⟨c, hc, .inr hor⟩
  · rintro ⟨c, hc, hor | hor⟩
    · have hpos := List.length_pos_iff.2 (h.points_ne c hc)
      exact ⟨_, hlt c hc 0 hpos, c, hc, 0, hpos, rfl, .inl ⟨rfl, hor⟩⟩
    · have hpos := List.length_pos_iff.2 (h.points_ne c hc)
      have hlast : c.points.length - 1 < c.points.length := Nat.sub_one_lt_of_lt hpos
      exact ⟨_, hlt c hc _ hlast, c, hc, _, hlast, rfl, .inr ⟨by omega, hor⟩⟩

/-! ## §4. The finished overlay. -/

/-- **Chains fastened to nodes**: the overlay is made of chains on different roads, and its deltas
offer the ends of the chains and withdraw their roads.  The nodes are those that the chains name,
whether or not the roads end there. -/
structure Fastened (g : RoadGraph K) (o : Overlay K) (cs : List (Chain K)) : Prop where
  laid : o.Laid cs
  firstNode_eq : o.firstNode = g.nodeCount
  firstEdge_eq : o.firstEdge = g.edgeCount
  distinct : (cs.map (·.road.edge)).Nodup
  additions : ∀ r d, o.delta? r = some d → d.additions.Nodup ∧ ∀ p, p ∈ d.additions ↔ EndPlace cs r p
  removals : ∀ r d, o.delta? r = some d → ∀ e, d.isRemoved e = true ↔
    ∃ c ∈ cs, c.road.edge = e ∧ (c.road.base = r ∨ c.road.adj = r)
  unchanged : ∀ r, o.delta? r = none → ∀ c ∈ cs, c.road.base ≠ r ∧ c.road.adj ≠ r

/-- **What is known of a built overlay**: its chains run along roads of the graph, from end to end. -/
structure Spliced (g : RoadGraph K) (o : Overlay K) (cs : List (Chain K)) : Prop
    extends Fastened g o cs where
  direction : ∀ c ∈ cs, g.HasDirection c.road

/-- The road behind an end part is that of its chain. -/
theorem Laid.hiddenBy_end (h : o.Laid cs) (hc : c ∈ cs) :
    o.hiddenBy (c.place 0 false) = some c.road.edge ∧
      o.hiddenBy (c.place c.points.length true) = some c.road.edge := by
  have hpos := List.length_pos_iff.2 (h.points_ne c hc)
  constructor
  · obtain ⟨part, hpart⟩ := h.exists_part hc (Nat.zero_le _)
    have hp := h.node?_virtual hc hpos
    have hadj : (c.piece o.firstNode o.firstEdge 0 part false).adj = c.node o.firstNode 1 := rfl
    simp [hiddenBy, h.piece?_place hc hpart, hadj, hp]
  · obtain ⟨part, hpart⟩ := h.exists_part hc (Nat.le_refl _)
    have hlast : c.points.length - 1 < c.points.length := Nat.sub_one_lt_of_lt hpos
    have hp := h.node?_virtual hc hlast
    rw [Nat.sub_add_cancel hpos] at hp
    have hadj : (c.piece o.firstNode o.firstEdge c.points.length part true).adj =
      c.node o.firstNode c.points.length := rfl
    simp [hiddenBy, h.piece?_place hc hpart, hadj, hp]

theorem Laid.mem_hidden (h : o.Laid cs) {r : NodeId} {d : Delta}
    (hd : ∀ p, p ∈ d.additions ↔ EndPlace cs r p) (e : EdgeId) :
    e ∈ d.additions.filterMap o.hiddenBy ↔
      ∃ c ∈ cs, c.road.edge = e ∧ (c.road.base = r ∨ c.road.adj = r) := by
  simp only [List.mem_filterMap, hd]
  constructor
  · rintro ⟨p, ⟨c, hc, ⟨hr, rfl⟩ | ⟨hr, rfl⟩⟩, he⟩
    · rw [(h.hiddenBy_end hc).1, Option.some.injEq] at he
      exact ⟨c, hc, he, .inl hr⟩
    · rw [(h.hiddenBy_end hc).2, Option.some.injEq] at he
      exact ⟨c, hc, he, .inr hr⟩
  · rintro ⟨c, hc, rfl, hr | hr⟩
    · exact ⟨_, ⟨c, hc, .inl ⟨hr, rfl⟩⟩, (h.hiddenBy_end hc).1⟩
    · exact ⟨_, ⟨c, hc, .inr ⟨hr, rfl⟩⟩, (h.hiddenBy_end hc).2⟩

/-- The deltas of an overlay of chains can be built. -/
theorem Laid.exists_buildDeltas (h : o.Laid cs) (hdistinct : (cs.map (·.road.edge)).Nodup)
    (hreal : RealEnds o cs) (hempty : o.deltas = ∅) : ∃ o', o.buildDeltas = .ok o' := by
  obtain ⟨deltas, hfold, -⟩ := h.offerAll hdistinct hreal hempty (Nat.le_refl _)
  have hsize : ¬ o.deltas.size ≠ 0 := by simp [hempty]
  unfold Overlay.buildDeltas
  rw [if_neg hsize, hfold]
  exact ⟨_, rfl⟩

/-- **Building the deltas** of an overlay of chains. -/
theorem Laid.buildDeltas {g : RoadGraph K} {o' : Overlay K} (h : o.Laid cs)
    (hnode : o.firstNode = g.nodeCount) (hedge : o.firstEdge = g.edgeCount)
    (hdistinct : (cs.map (·.road.edge)).Nodup) (hreal : RealEnds o cs) (hempty : o.deltas = ∅)
    (hbuild : o.buildDeltas = .ok o') : Fastened g o' cs := by
  obtain ⟨deltas, hfold, hoffered⟩ := h.offerAll hdistinct hreal hempty (Nat.le_refl _)
  have hsize : ¬ o.deltas.size ≠ 0 := by simp [hempty]
  obtain rfl : o' = (o.withDeltas deltas).withDeltas
      (deltas.map fun _ d => (o.withDeltas deltas).withRemovals d) := by
    unfold Overlay.buildDeltas at hbuild
    rw [if_neg hsize, hfold] at hbuild
    exact (Except.ok.inj hbuild).symm
  have hends : ∀ r p, p ∈ ((o.withDeltas deltas).deltaAt r).additions ↔ EndPlace cs r p := fun r p =>
    (hoffered.mem r p).trans h.endPlace_iff
  have hdelta : ∀ r d, deltas[r]? = some d → (o.withDeltas deltas).deltaAt r = d := fun r d hd => by
    show deltas.getD r Delta.none = d
    rw [Std.TreeMap.getD_eq_getD_getElem?, hd, Option.getD_some]
  -- A delta of the finished overlay is one of the offers with the roads behind it withdrawn.
  have hread : ∀ r d, ((o.withDeltas deltas).withDeltas
      (deltas.map fun _ d => (o.withDeltas deltas).withRemovals d)).delta? r = some d →
        d = (o.withDeltas deltas).withRemovals ((o.withDeltas deltas).deltaAt r) := fun r d hd => by
    unfold delta? at hd
    have hd : (deltas.map fun _ d => (o.withDeltas deltas).withRemovals d)[r]? = some d := hd
    rw [Std.TreeMap.getElem?_map, Option.map_eq_some_iff] at hd
    obtain ⟨d₀, hd₀, rfl⟩ := hd
    rw [hdelta r d₀ hd₀]
  refine ⟨(h.withDeltas _).withDeltas _, hnode, hedge, hdistinct, fun r d hd => ?_,
    fun r d hd e => ?_, fun r hr c hc => ?_⟩
  · obtain rfl := hread r d hd
    rw [withRemovals, (Delta.foldl_remove _ _).1]
    exact ⟨hoffered.nodup r, hends r⟩
  · obtain rfl := hread r d hd
    rw [Delta.isRemoved, List.contains_eq_mem, decide_eq_true_eq, withRemovals,
      (Delta.foldl_remove _ _).2, hoffered.removals]
    rw [(h.withDeltas deltas).mem_hidden (hends r)]
    simp
  · have hnone : (o.withDeltas deltas).deltaAt r = Delta.none := by
      have hr : (deltas.map fun _ d => (o.withDeltas deltas).withRemovals d)[r]? = none := hr
      rw [Std.TreeMap.getElem?_map, Option.map_eq_none_iff] at hr
      show deltas.getD r Delta.none = Delta.none
      rw [Std.TreeMap.getD_eq_getD_getElem?, hr, Option.getD_none]
    have hno : ∀ p, ¬ EndPlace cs r p := fun p hp => by
      rw [← hends, hnone] at hp
      simp [Delta.none] at hp
    exact ⟨fun heq => hno _ ⟨c, hc, .inl ⟨heq, rfl⟩⟩, fun heq => hno _ ⟨c, hc, .inr ⟨heq, rfl⟩⟩⟩

/-- **Built overlays**: chains that thread the snaps, and the deltas that belong to them. -/
theorem spliced_of_steps [Scalar K] {g : RoadGraph K} (hg : g.WellFormed) {snaps final : Array (Snap K)}
    {groups : Splicing.Groups} {prepared spliced : Splicing K} (hsnaps : Splicing.OnRoads g snaps)
    (h : Splicing.BuildSteps g snaps final o groups prepared spliced cs) :
    Spliced g o cs ∧ ∀ c ∈ cs, ∃ shape start last ss,
      Splicing.Threads g snaps final g.nodeCount c shape start last ss := by
  have hthreads := h.threads
  have hdirection : ∀ c ∈ cs, g.HasDirection c.road := fun c hc => by
    obtain ⟨shape, start, last, ss, ht⟩ := hthreads c hc
    exact ht.direction hsnaps
  have hreal : RealEnds spliced.overlay cs := fun c hc => by
    rw [h.firstNode_eq]
    exact ⟨hg.touches_lt (hdirection c hc).touches.1, hg.touches_lt (hdirection c hc).touches.2⟩
  exact ⟨⟨h.roads.laid.buildDeltas h.firstNode_eq h.firstEdge h.distinct hreal h.empty h.deltas,
    hdirection⟩, hthreads⟩

theorem spliced_of_build [Scalar K] {g : RoadGraph K} (hg : g.WellFormed) {snaps final : Array (Snap K)}
    (hsnaps : Splicing.OnRoads g snaps) (h : build g snaps = (.ok o, final)) :
    ∃ cs, Spliced g o cs ∧ ∀ c ∈ cs, ∃ shape start last ss,
      Splicing.Threads g snaps final g.nodeCount c shape start last ss := by
  obtain ⟨groups, prepared, spliced, cs, hsteps⟩ := Splicing.exists_buildSteps h
  exact ⟨cs, spliced_of_steps hg hsnaps hsteps⟩

end Overlay

end RoadSplice

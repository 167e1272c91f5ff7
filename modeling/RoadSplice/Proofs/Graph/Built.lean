/-
  RoadSplice.Proofs.Graph.Built — road graphs as their changes leave them.

  A graph is *built* when changes, refused ones included, have made it from the graph without
  nodes.  Every built graph is well formed: its roads end at nodes that exist, and each node
  lists the roads that end there, once each.  All that is proved about searches rests on this
  and on nothing else about the graph.
-/
import RoadSplice.Graph.RoadGraph

namespace RoadSplice.RoadGraph

variable {K : Type}

/-! ## §1. Well-formed graphs. -/

/-- The roads listed at a node. -/
def incidentAt (g : RoadGraph K) (node : NodeId) : List EdgeId :=
  (g.incident[node]?.getD #[]).toList

/-- A road ends at a node. -/
def Touches (g : RoadGraph K) (edge : EdgeId) (node : NodeId) : Prop :=
  ∃ r, g.roads[edge]? = some r ∧ (r.a = node ∨ r.b = node)

/-- **A well-formed graph.** -/
structure WellFormed (g : RoadGraph K) : Prop where
  incident_size : g.incident.size = g.nodeCount
  touches_lt : ∀ {edge node}, g.Touches edge node → node < g.nodeCount
  mem_incidentAt : ∀ node edge, edge ∈ g.incidentAt node ↔ g.Touches edge node
  nodup : ∀ node, (g.incidentAt node).Nodup

/-! ## §2. What a change does. -/

/-- The graph that a change hands back. -/
def after {α : Type} (change : Edit K α) (g : RoadGraph K) : RoadGraph K := (change.run.run g).2

theorem run_addEdge (a b : NodeId) (d : K) (g : RoadGraph K) :
    (addEdge a b d).run.run g =
      if g.nodeCount ≤ a then (.error (.nodeNotFound a), g)
      else if g.nodeCount ≤ b then (.error (.nodeNotFound b), g)
      else (.ok g.edgeCount, g.joinNodes a b d) := by
  show (if g.nodeCount ≤ a then _ else
    if g.nodeCount ≤ b then _ else _ : Edit K EdgeId).run.run g = _
  split
  · rfl
  · split <;> rfl

/-- Adding a road between nodes that exist. -/
theorem after_addEdge_of_lt {a b : NodeId} (d : K) {g : RoadGraph K} (ha : a < g.nodeCount)
    (hb : b < g.nodeCount) : after (addEdge a b d) g = g.joinNodes a b d := by
  unfold after
  rw [run_addEdge, if_neg (Nat.not_le.2 ha), if_neg (Nat.not_le.2 hb)]

theorem after_addEdge (a b : NodeId) (d : K) (g : RoadGraph K) :
    after (addEdge a b d) g = g ∨
      a < g.nodeCount ∧ b < g.nodeCount ∧ after (addEdge a b d) g = g.joinNodes a b d := by
  by_cases h : a < g.nodeCount ∧ b < g.nodeCount
  · exact .inr ⟨h.1, h.2, after_addEdge_of_lt d h.1 h.2⟩
  · left
    unfold after
    rw [run_addEdge]
    split
    · rfl
    · rename_i ha
      have hb : g.nodeCount ≤ b := Nat.not_lt.1 fun hb => h ⟨Nat.lt_of_not_le ha, hb⟩
      rw [if_pos hb]

theorem run_modifyRoad (edge : EdgeId) (change : Road K → Road K) (g : RoadGraph K) :
    (modifyRoad edge change).run.run g =
      if edge < g.edgeCount then (.ok (), { g with roads := g.roads.modify edge change })
      else (.error (.edgeNotFound edge), g) := by
  show (if edge < g.edgeCount then _ else _ : Edit K Unit).run.run g = _
  split <;> rfl

/-- Changing a road that exists. -/
theorem after_modifyRoad_of_lt {edge : EdgeId} (change : Road K → Road K) {g : RoadGraph K}
    (h : edge < g.edgeCount) :
    after (modifyRoad edge change) g = { g with roads := g.roads.modify edge change } := by
  unfold after
  rw [run_modifyRoad, if_pos h]

theorem after_modifyRoad (edge : EdgeId) (change : Road K → Road K) (g : RoadGraph K) :
    after (modifyRoad edge change) g = g ∨
      after (modifyRoad edge change) g = { g with roads := g.roads.modify edge change } := by
  by_cases h : edge < g.edgeCount
  · exact .inr (after_modifyRoad_of_lt change h)
  · left
    unfold after
    rw [run_modifyRoad, if_neg h]

/-- Giving inner points to a road that exists. -/
theorem after_setPillars_of_lt [Scalar K] {edge : EdgeId} (s : Polyline K) {g : RoadGraph K}
    (h : edge < g.edgeCount) : after (setPillars edge s) g =
      { g with
        bounds := s.points.foldl (fun b p => b.extend p.lat p.lon) g.bounds
        roads := g.roads.modify edge fun r => { r with pillars := s } } := by
  let bounds := s.points.foldl (fun b p => b.extend p.lat p.lon) g.bounds
  exact after_modifyRoad_of_lt (fun r => { r with pillars := s }) (g := { g with bounds := bounds }) h

theorem run_updateWord (edge : EdgeId) (change : Word → Word) (g : RoadGraph K) :
    (updateWord edge change).run.run g =
      if edge < g.words.size then (.ok (), { g with words := g.words.modify edge change })
      else (.error (.edgeNotFound edge), g) := by
  show (if edge < g.words.size then _ else _ : Edit K Unit).run.run g = _
  split <;> rfl

/-- Changing the flag word of a road that exists. -/
theorem after_updateWord_of_lt {edge : EdgeId} (change : Word → Word) {g : RoadGraph K}
    (h : edge < g.words.size) :
    after (updateWord edge change) g = { g with words := g.words.modify edge change } := by
  unfold after
  rw [run_updateWord, if_pos h]

theorem after_updateWord (edge : EdgeId) (change : Word → Word) (g : RoadGraph K) :
    ∃ words, after (updateWord edge change) g = { g with words := words } := by
  by_cases h : edge < g.words.size
  · exact ⟨g.words.modify edge change, after_updateWord_of_lt change h⟩
  · refine ⟨g.words, ?_⟩
    unfold after
    rw [run_updateWord, if_neg h]

/-- Writing a number through a view of a road that exists. -/
theorem after_assign_along_of_lt {v : EdgeView K} (p : IntProperty) (x : Nat) {g : RoadGraph K}
    (h : v.road < g.words.size) : after (assign v p .ok (.along x)) g =
      { g with words := g.words.modify v.road (p.write v.reverse · x) } :=
  after_updateWord_of_lt _ h

/-- A value that may be refused, and a change that uses it, touch no more than the change. -/
theorem after_liftExcept_bind {α β : Type} (r : Except (Error K) α) (next : α → Edit K β)
    (g : RoadGraph K) (h : ∀ x, ∃ words, after (next x) g = { g with words := words }) :
    ∃ words, after (liftExcept r >>= next) g = { g with words := words } := by
  cases r with
  | error e => exact ⟨g.words, rfl⟩
  | ok x => exact h x

/-- **A property written through a view** changes flag words at most. -/
theorem after_assign {α : Type} (v : EdgeView K) (p : IntProperty)
    (encode : α → Except (Error K) Nat) (values : Assignment α) (g : RoadGraph K) :
    ∃ words, after (assign v p encode values) g = { g with words := words } := by
  cases values with
  | along x => exact after_liftExcept_bind _ _ g fun raw => after_updateWord _ _ g
  | against x => exact after_liftExcept_bind _ _ g fun raw => after_updateWord _ _ g
  | both x y =>
    refine after_liftExcept_bind _ _ g fun _ => ?_
    refine after_liftExcept_bind _ _ g fun _ => ?_
    exact after_liftExcept_bind _ _ g fun _ => after_updateWord _ _ g

/-! ## §3. Changes keep a graph well formed. -/

/-- Well-formedness is about the ends of the roads, the lists at the nodes and their number. -/
theorem WellFormed.of_touches {g g' : RoadGraph K} (h : g.WellFormed)
    (hcount : g'.nodeCount = g.nodeCount) (hincident : g'.incident = g.incident)
    (htouches : ∀ edge node, g'.Touches edge node ↔ g.Touches edge node) : g'.WellFormed where
  incident_size := by rw [hincident, hcount, h.incident_size]
  touches_lt ht := by
    rw [hcount]
    exact h.touches_lt ((htouches _ _).1 ht)
  mem_incidentAt node edge := by
    rw [htouches, ← h.mem_incidentAt, incidentAt, hincident]
    rfl
  nodup node := by
    rw [incidentAt, hincident]
    exact h.nodup node

/-- Changing a road without moving its ends. -/
theorem touches_modify (g : RoadGraph K) (edge : EdgeId) {change : Road K → Road K}
    (ha : ∀ r, (change r).a = r.a) (hb : ∀ r, (change r).b = r.b) (e : EdgeId) (n : NodeId) :
    Touches { g with roads := g.roads.modify edge change } e n ↔ g.Touches e n := by
  unfold Touches
  rw [Array.getElem?_modify]
  by_cases h : edge = e
  · subst h
    cases g.roads[edge]? <;> simp [ha, hb]
  · simp [h]

theorem WellFormed.modifyRoad {g : RoadGraph K} (h : g.WellFormed) (edge : EdgeId)
    (change : Road K → Road K) (ha : ∀ r, (change r).a = r.a) (hb : ∀ r, (change r).b = r.b) :
    (after (modifyRoad edge change) g).WellFormed := by
  obtain heq | heq := after_modifyRoad edge change g
  · rwa [heq]
  · rw [heq]
    exact h.of_touches rfl rfl (touches_modify g edge ha hb)

/-- A table filled up with empty entries reads like the table. -/
theorem getD_grow {α : Type} (table : Array (Array α)) (size i : Nat) :
    (grow table size #[])[i]?.getD #[] = table[i]?.getD #[] := by
  unfold grow
  rw [Array.getElem?_append]
  split
  · rfl
  · rename_i h
    rw [Array.getElem?_eq_none (Nat.le_of_not_lt h), Array.getElem?_replicate]
    split <;> rfl

theorem touches_joinNodes (g : RoadGraph K) (a b : NodeId) (d : K) (e : EdgeId) (n : NodeId) :
    (g.joinNodes a b d).Touches e n ↔
      g.Touches e n ∨ (e = g.edgeCount ∧ (a = n ∨ b = n)) := by
  unfold Touches joinNodes edgeCount
  rw [Array.getElem?_push]
  by_cases h : e = g.roads.size
  · subst h
    simp
  · simp [h]

theorem incidentAt_joinNodes (g : RoadGraph K) {a b : NodeId} (d : K) (ha : a < g.incident.size)
    (hb : b < g.incident.size) (n : NodeId) :
    (g.joinNodes a b d).incidentAt n =
      if a = n ∨ b = n then g.incidentAt n ++ [g.edgeCount] else g.incidentAt n := by
  unfold incidentAt joinNodes
  -- A loop is entered once into the list of its node.
  by_cases hab : a = b
  · subst hab
    simp only [↓reduceIte, or_self, Array.getElem?_modify]
    by_cases han : a = n
    · subst han
      simp [ha]
    · simp [han]
  · simp only [hab, ↓reduceIte, Array.getElem?_modify]
    by_cases hbn : b = n
    · subst hbn
      simp [hab, hb]
    · by_cases han : a = n
      · subst han
        simp [hbn, ha]
      · simp [han, hbn]

theorem WellFormed.joinNodes {g : RoadGraph K} (h : g.WellFormed) {a b : NodeId} (d : K)
    (ha : a < g.nodeCount) (hb : b < g.nodeCount) : (g.joinNodes a b d).WellFormed := by
  have hlists := incidentAt_joinNodes g d (h.incident_size ▸ ha) (h.incident_size ▸ hb)
  -- The number of the new road is in no list yet.
  have hnew : ∀ n, ¬ g.Touches g.edgeCount n := by
    rintro n ⟨r, hr, -⟩
    simp [edgeCount] at hr
  exact {
    incident_size := by
      have := h.incident_size
      unfold RoadGraph.joinNodes
      split <;> simpa [nodeCount] using this
    touches_lt := fun {edge node} ht => by
      obtain ht | ⟨-, rfl | rfl⟩ := (touches_joinNodes g a b d edge node).1 ht
      · exact h.touches_lt ht
      · exact ha
      · exact hb
    mem_incidentAt := fun n e => by
      rw [hlists, touches_joinNodes, ← h.mem_incidentAt]
      split <;> simp_all
    nodup := fun n => by
      rw [hlists]
      split
      · refine List.nodup_append.2 ⟨h.nodup n, by simp, ?_⟩
        rintro e he _ hnew' rfl
        rw [List.mem_singleton.1 hnew'] at he
        exact hnew n ((h.mem_incidentAt _ _).1 he)
      · exact h.nodup n }

variable [Scalar K]

theorem WellFormed.placeNode {g : RoadGraph K} (h : g.WellFormed) (node : NodeId) (p : Point K) :
    (g.placeNode node p).WellFormed := by
  have hlists : ∀ n, (g.placeNode node p).incidentAt n = g.incidentAt n := fun n =>
    congrArg Array.toList (getD_grow g.incident (node + 1) n)
  have hcount : g.nodeCount ≤ (g.placeNode node p).nodeCount := by
    simp [nodeCount, RoadGraph.placeNode, grow]
  exact {
    incident_size := by
      have := h.incident_size
      simp only [nodeCount] at this
      simp [nodeCount, RoadGraph.placeNode, grow, this]
    touches_lt := fun ht => Nat.lt_of_lt_of_le (h.touches_lt ht) hcount
    mem_incidentAt := fun n e => by
      rw [hlists]
      exact h.mem_incidentAt n e
    nodup := fun n => by
      rw [hlists]
      exact h.nodup n }

theorem wellFormed_empty (is3d : Bool) : (empty is3d : RoadGraph K).WellFormed where
  incident_size := rfl
  touches_lt h := by
    obtain ⟨r, hr, -⟩ := h
    simp [empty] at hr
  mem_incidentAt node edge := by simp [incidentAt, Touches, empty]
  nodup node := by simp [incidentAt, empty]

/-! ## §4. Built graphs. -/

/-- **A graph made by changes.** -/
inductive Built : RoadGraph K → Prop
  | empty (is3d : Bool) : Built (empty is3d)
  | setNode {g} (node : NodeId) (p : Point K) : Built g → Built (after (setNode node p) g)
  | addEdge {g} (a b : NodeId) (d : K) : Built g → Built (after (addEdge a b d) g)
  | setPillars {g} (edge : EdgeId) (s : Polyline K) : Built g → Built (after (setPillars edge s) g)
  | setName {g} (edge : EdgeId) (name : String) : Built g → Built (after (setName edge name) g)
  | setDistance {g} (edge : EdgeId) (d : K) : Built g → Built (after (setDistance edge d) g)
  | setTurn {g} (turn : Turn) (cost : Option K) : Built g → Built (after (setTurn turn cost) g)
  | assign {g} {α : Type} (v : EdgeView K) (p : IntProperty) (encode : α → Except (Error K) Nat)
      (values : Assignment α) : Built g → Built (after (assign v p encode values) g)

/-- **Every built graph is well formed.** -/
theorem Built.wellFormed {g : RoadGraph K} (h : g.Built) : g.WellFormed := by
  induction h with
  | empty is3d => exact wellFormed_empty is3d
  | setNode node p _ ih => exact ih.placeNode node p
  | @addEdge g a b d _ ih =>
    obtain heq | ⟨ha, hb, heq⟩ := after_addEdge a b d g
    · rwa [heq]
    · rw [heq]
      exact ih.joinNodes d ha hb
  | @setPillars g edge s _ ih =>
    -- The bounds change first, whether or not the road exists.
    let bounds := s.points.foldl (fun b p => b.extend p.lat p.lon) g.bounds
    have hbounds : WellFormed { g with bounds := bounds } :=
      ih.of_touches rfl rfl fun _ _ => Iff.rfl
    exact hbounds.modifyRoad edge (fun r => { r with pillars := s }) (fun _ => rfl) fun _ => rfl
  | setName edge name _ ih =>
    exact ih.modifyRoad edge (fun r => { r with name := name }) (fun _ => rfl) fun _ => rfl
  | setDistance edge d _ ih =>
    exact ih.modifyRoad edge (fun r => { r with distance := d }) (fun _ => rfl) fun _ => rfl
  | setTurn turn cost _ ih => exact ih.of_touches rfl rfl fun _ _ => Iff.rfl
  | @assign g α v p encode values _ ih =>
    obtain ⟨words, heq⟩ := after_assign v p encode values g
    rw [heq]
    exact ih.of_touches rfl rfl fun _ _ => Iff.rfl

/-! ## §5. A graph of one road. -/

/-- The property that takes the whole flag word of a road. -/
def wholeWord : IntProperty := ⟨"word", 64, 0, none⟩

omit [Scalar K] in
/-- Writing the whole flag word of a road, whichever way the road is seen. -/
theorem after_assign_wholeWord {v : EdgeView K} (word : Nat) {g : RoadGraph K}
    (h : v.road < g.words.size) : after (assign v wholeWord .ok (.along word)) g =
      { g with words := g.words.setIfInBounds v.road (BitVec.ofNat 64 word) } := by
  have hmask : wholeWord.mask = BitVec.allOnes 64 := rfl
  have hshift : wholeWord.shift v.reverse = 0 := by cases v.reverse <;> rfl
  have hwrite : ∀ w, wholeWord.write v.reverse w word = BitVec.ofNat 64 word := by
    intro w
    unfold IntProperty.write
    rw [hmask, hshift, BitVec.and_allOnes, BitVec.shiftLeft_zero, BitVec.shiftLeft_zero,
      BitVec.not_allOnes, BitVec.and_zero, BitVec.zero_or]
  rw [after_assign_along_of_lt _ _ h]
  refine congrArg (fun words => { g with words := words }) ?_
  refine Array.ext_getElem? fun i => ?_
  rw [Array.getElem?_modify, Array.getElem?_setIfInBounds]
  split
  · rename_i heq
    subst heq
    rw [Array.getElem?_eq_getElem h]
    exact congrArg some (hwrite _)
  · rfl

/-- Two nodes and a road between them, with its inner points, its distance and its flag word. -/
def oneRoad (p q : Point K) (pillars : List (Point K)) (d : K) (word : Nat) : RoadGraph K :=
  let g := after (addEdge 0 1 d) (after (setNode 1 q) (after (setNode 0 p) (empty false)))
  after (assign (g.view ⟨0, 0, 1, false⟩) wholeWord .ok (.along word))
    (after (setPillars 0 ⟨pillars, false⟩) g)

/-- The road of such a graph, as it is stored. -/
def onlyRoad : DirectedEdge := ⟨0, 0, 1, false⟩

theorem built_oneRoad (p q : Point K) (pillars : List (Point K)) (d : K) (word : Nat) :
    (oneRoad p q pillars d word).Built :=
  .assign _ _ _ _ (.setPillars _ _ (.addEdge _ _ _ (.setNode _ _ (.setNode _ _ (.empty false)))))

/-- **What such a graph holds.** -/
theorem oneRoad_eq (p q : Point K) (pillars : List (Point K)) (d : K) (word : Nat) :
    (oneRoad p q pillars d word).nodes = #[p, q] ∧
      (oneRoad p q pillars d word).roads = #[⟨0, 1, d, ⟨pillars, false⟩, ""⟩] ∧
      (oneRoad p q pillars d word).words = #[BitVec.ofNat 64 word] ∧
      (oneRoad p q pillars d word).is3d = false := by
  have hnodes : (((empty false).placeNode 0 p).placeNode 1 q).nodes = #[p, q] := by
    simp [placeNode, grow, empty]
  unfold oneRoad
  dsimp only
  rw [show after (setNode 1 q) (after (setNode 0 p) (empty false)) =
    ((empty false).placeNode 0 p).placeNode 1 q from rfl]
  have hroads : (((empty false).placeNode 0 p).placeNode 1 q).roads = #[] := rfl
  have hwords : (((empty false).placeNode 0 p).placeNode 1 q).words = #[] := rfl
  have his3d : (((empty false).placeNode 0 p).placeNode 1 q).is3d = false := rfl
  -- These fields are all that the road is built on.
  generalize ((empty false).placeNode 0 p).placeNode 1 q = g at hnodes hroads hwords his3d
  have hcount : g.nodeCount = 2 := by rw [nodeCount, hnodes]; rfl
  rw [after_addEdge_of_lt d (hcount ▸ Nat.zero_lt_two) (hcount ▸ Nat.one_lt_two),
    after_setPillars_of_lt _ (by simp [edgeCount, joinNodes]),
    after_assign_wholeWord _ (by simp [joinNodes, view])]
  simp [joinNodes, hnodes, hroads, hwords, his3d, Polyline.empty, edgeCount, view]

theorem nodeCount_oneRoad (p q : Point K) (pillars : List (Point K)) (d : K) (word : Nat) :
    (oneRoad p q pillars d word).nodeCount = 2 := by
  rw [nodeCount, (oneRoad_eq p q pillars d word).1]
  rfl

end RoadSplice.RoadGraph

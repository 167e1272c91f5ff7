/-
  RoadSplice.Proofs.Overlay.OneRoad — the overlay of snaps on one road.

  Snaps that lie in the own direction of one road, have points and come in the order of their
  places are kept in that order, so what becomes of them can be said in closed form: the overlay
  is built, and it is made of the chain of that road through these snaps.
-/
import RoadSplice.Proofs.Overlay.Deltas
import RoadSplice.Proofs.Overlay.Stops

namespace RoadSplice.Splicing

variable {K : Type} [Scalar K] {g : RoadGraph K} {w : Splicing K} {d : DirectedEdge}
  {shape : Polyline K} {indices : List Nat} {ss : List (Snap K)}

/-! ## §1. Work that succeeds. -/

/-- **Work succeeds** with some result. -/
def Succeeds {α : Type} (x : SpliceM K α) (w : Splicing K) : Prop := ∃ a w', Yields x w a w'

omit [Scalar K] in
@[simp]
theorem succeeds_pure {α : Type} (a : α) : Succeeds (pure a) w := ⟨a, w, yields_pure.2 ⟨rfl, rfl⟩⟩

omit [Scalar K] in
theorem succeeds_bind {α β : Type} {x : SpliceM K α} {f : α → SpliceM K β} :
    Succeeds (x >>= f) w ↔ ∃ a v, Yields x w a v ∧ Succeeds (f a) v := by
  unfold Succeeds
  constructor
  · rintro ⟨b, w', h⟩
    obtain ⟨a, v, hx, hf⟩ := yields_bind.1 h
    exact ⟨a, v, hx, b, w', hf⟩
  · rintro ⟨a, v, hx, b, w', hf⟩
    exact ⟨b, w', yields_bind.2 ⟨a, v, hx, hf⟩⟩

/-- A snap of a road can be linked to any anchor. -/
theorem succeeds_link (shape : Polyline K) (a : Anchor K) {i : Nat} {s : Snap K}
    {own : DirectedEdge} (hs : w.snaps[i]? = some s) (hown : s.closest = some own)
    (hbase : own.base = d.base) : Succeeds (link d shape a i) w := by
  unfold link
  simp only [succeeds_bind, yields_snap, yields_closestOf]
  refine ⟨s, w, ⟨hs, rfl⟩, own, w, ⟨hown, rfl⟩, ?_⟩
  simp only [ne_eq, hbase, not_true_eq_false, ↓reduceIte]
  split
  · simp [-bind_pure_comp, succeeds_bind]
  · split
    · simp [-bind_pure_comp, succeeds_bind]
    · simp [-bind_pure_comp, succeeds_bind]

/-- Linking changes no other snap. -/
theorem link_others {a a' : Anchor K} {i j : Nat} {w' : Splicing K} (hne : i ≠ j)
    (h : Yields (link d shape a i) w a' w') : w'.snaps[j]? = w.snaps[j]? := by
  obtain ⟨s, own, -, -, -, ⟨-, -, rfl⟩ | ⟨-, -, rfl⟩⟩ := link_inv h
  · exact Array.getElem?_setIfInBounds_ne hne
  · exact Array.getElem?_setIfInBounds_ne hne

theorem succeeds_links (shape : Polyline K) (a : Anchor K) (hnodup : indices.Nodup)
    (h : ∀ i ∈ indices, ∃ s own, w.snaps[i]? = some s ∧ s.closest = some own ∧
      own.base = d.base) :
    Succeeds (indices.foldlM (link d shape) a) w := by
  induction indices generalizing w a with
  | nil => exact succeeds_pure a
  | cons i indices ih =>
    obtain ⟨hi, hnodup⟩ := List.nodup_cons.1 hnodup
    obtain ⟨s, own, hs, hown, hbase⟩ := h i (by simp)
    obtain ⟨b, v, hlink⟩ := succeeds_link shape a hs hown hbase
    rw [List.foldlM_cons, succeeds_bind]
    refine ⟨b, v, hlink, ih b hnodup fun j hj => ?_⟩
    have hne : i ≠ j := by
      rintro rfl
      exact hi hj
    rw [link_others hne hlink]
    exact h j (by simp [hj])

/-- Snaps with places can be sorted. -/
theorem succeeds_sortAlong
    (h : ∀ i ∈ indices, ∃ s key, w.snaps[i]? = some s ∧ along shape s = some key) :
    Succeeds (sortAlong shape indices) w := by
  unfold sortAlong
  rw [succeeds_bind]
  have hkeyed : ∃ keyed, Yields (indices.mapM (keyOf shape)) w keyed w := by
    induction indices with
    | nil => exact ⟨[], yields_pure.2 ⟨rfl, rfl⟩⟩
    | cons i indices ih =>
      obtain ⟨s, key, hs, hkey⟩ := h i (by simp)
      obtain ⟨keyed, hkeyed⟩ := ih fun j hj => h j (by simp [hj])
      refine ⟨(key, i) :: keyed, ?_⟩
      rw [List.mapM_cons]
      simp only [yields_bind, yields_keyOf, yields_pure]
      exact ⟨(key, i), w, ⟨⟨s, hs, hkey⟩, rfl, rfl⟩, keyed, w, hkeyed, rfl, rfl⟩
  obtain ⟨keyed, hkeyed⟩ := hkeyed
  exact ⟨keyed, w, hkeyed, succeeds_pure _⟩

/-- **A road can be spliced** if its snaps lie on it and have places along its shape. -/
theorem succeeds_spliceRoad {first : Nat} {s₀ : Snap K} {start last : Point K}
    (hfirst : indices.head? = some first) (hs₀ : w.snaps[first]? = some s₀)
    (hd : s₀.closest = some d) (hshape : d.shape g = .ok shape) (hstart : shape.first? = some start)
    (hlast : shape.last? = some last) (hlong : 2 ≤ shape.length) (hnodup : indices.Nodup)
    (h : ∀ i ∈ indices, ∃ s own, w.snaps[i]? = some s ∧ s.closest = some own ∧
      own.base = d.base)
    (hkeys : ∀ i ∈ indices, ∃ s key, w.snaps[i]? = some s ∧ along shape s = some key) :
    Succeeds (spliceRoad g indices) w := by
  obtain ⟨ordered, v, hsort⟩ := succeeds_sortAlong hkeys
  obtain ⟨rfl, -⟩ := sortAlong_inv hsort
  have hperm := sortAlong_perm hsort
  obtain ⟨a', v', hlinks⟩ := succeeds_links (d := d) shape ⟨start, 1, d.base, false, (0, .tower)⟩
    (hperm.nodup_iff.2 hnodup) fun i hi => h i (hperm.mem_iff.1 hi)
  unfold spliceRoad
  simp only [hfirst, succeeds_bind, yields_snap, yields_closestOf, yields_lift]
  refine ⟨s₀, v, ⟨hs₀, rfl⟩, d, v, ⟨hd, rfl⟩, shape, v, ⟨hshape, rfl⟩, ?_⟩
  simp only [hstart, hlast, succeeds_bind]
  refine ⟨ordered, v, hsort, a', v', hlinks, ?_⟩
  split
  · rw [if_neg (Nat.not_lt.2 hlong)]
    exact ⟨(), _, yields_pushPiece.2 rfl⟩
  · exact succeeds_pure _

/-! ## §2. Snaps that need no preparation. -/

/-- **Names that are not turned**: a road runs in its own direction, and so does its reverse if it is
a loop. -/
structure Unturned (g : RoadGraph K) (d : DirectedEdge) : Prop where
  own : Snap.runsBackwards g d = .ok false
  loop : d.base = d.adj → Snap.runsBackwards g d.reversed = .ok false

/-- A name of a road: the road itself, or its reverse if it is a loop. -/
def Names (d own : DirectedEdge) : Prop := own = d ∨ d.base = d.adj ∧ own = d.reversed

/-- **A snap in place** on a directed road: it names this road, lies between the ends and has a point
and a place along the shape. -/
structure InPlace (d : DirectedEdge) (shape : Polyline K) (s : Snap K) : Prop where
  exists_closest : ∃ own, s.closest = some own ∧ Names d own
  not_tower : s.position ≠ .tower
  exists_point : ∃ p, s.point = some p
  exists_key : ∃ key, along shape s = some key

theorem Names.edge_eq {own : DirectedEdge} (h : Names d own) : own.edge = d.edge := by
  obtain rfl | ⟨-, rfl⟩ := h <;> rfl

theorem Names.base_eq {own : DirectedEdge} (h : Names d own) : own.base = d.base := by
  obtain rfl | ⟨hloop, rfl⟩ := h
  · rfl
  · exact hloop.symm

theorem Unturned.name (h : Unturned g d) {own : DirectedEdge} (hown : Names d own) :
    Snap.runsBackwards g own = .ok false := by
  obtain rfl | ⟨hloop, rfl⟩ := hown
  · exact h.own
  · exact h.loop hloop

/-- A snap in the own direction of its road is not turned. -/
theorem normalized_self (hdir : Snap.runsBackwards g d = .ok false) {s : Snap K}
    (hd : s.closest = some d) : s.normalized g = .ok s := by
  unfold Snap.normalized
  rw [hd]
  simp [hdir, bind, Except.bind, pure, Except.pure]

/-- Preparing a snap in place only files it. -/
theorem yields_prepare (hdir : Unturned g d) {i : Nat} {s : Snap K}
    (hs : w.snaps[i]? = some s) (h : InPlace d shape s) (groups : Groups) :
    Yields (prepare g groups i) w (file d.edge i groups) w := by
  obtain ⟨p, hp⟩ := h.exists_point
  obtain ⟨own, hown, hname⟩ := h.exists_closest
  have hset : w.snaps.setIfInBounds i s = w.snaps := by
    refine Array.ext_getElem? fun j => ?_
    rw [Array.getElem?_setIfInBounds]
    split
    · rename_i heq
      subst heq
      rw [hs, if_pos (Array.getElem?_eq_some_iff.1 hs).1]
    · rfl
  have hkept : ({ w with snaps := w.snaps.setIfInBounds i s } : Splicing K) = w := by rw [hset]
  unfold prepare
  simp only [yields_bind, yields_snap]
  refine ⟨s, w, ⟨hs, rfl⟩, ?_⟩
  rw [if_neg h.not_tower]
  simp only [yields_bind, yields_lift, yields_setSnap]
  refine ⟨s, w, ⟨normalized_self (hdir.name hname) hown, rfl⟩, (), w, hkept.symm, ?_⟩
  simp only [hp, Option.isNone_some, Bool.false_eq_true, ↓reduceIte, yields_pure, yields_bind,
    yields_setSnap, yields_closestOf]
  exact ⟨s, w, ⟨rfl, rfl⟩, (), w, hkept.symm, own, w, ⟨hown, rfl⟩, by rw [hname.edge_eq], rfl⟩

/-- All snaps of one road are filed in one group, in their order. -/
theorem yields_prepareAll (hdir : Unturned g d) {n : Nat}
    (h : ∀ i < n, ∃ s, w.snaps[i]? = some s ∧ InPlace d shape s) :
    Yields ((List.range n).foldlM (prepare g) []) w
      (if n = 0 then [] else [(d.edge, List.range n)]) w := by
  induction n with
  | zero => exact yields_pure.2 ⟨rfl, rfl⟩
  | succ n ih =>
    obtain ⟨s, hs, hplace⟩ := h n (Nat.lt_succ_self n)
    rw [List.range_succ, List.foldlM_append, yields_bind]
    refine ⟨_, w, ih fun i hi => h i (Nat.lt_succ_of_lt hi), ?_⟩
    rw [List.foldlM_cons, yields_bind]
    refine ⟨_, w, yields_prepare hdir hs hplace _, yields_pure.2 ⟨?_, rfl⟩⟩
    rw [if_neg (Nat.succ_ne_zero n)]
    by_cases hn : n = 0
    · subst hn
      rfl
    · rw [if_neg hn]
      simp [file]

/-- Sorting leaves snaps that are in order where they are. -/
theorem sortedAlong_eq {ss' : List (Snap K)}
    (h : SortedAlong ss.toArray shape (List.range ss.length) ss')
    (hsorted : ss.Pairwise (NotBehind shape)) : ss' = ss := by
  obtain ⟨keyed, hrange, hall⟩ := h
  have hlen : keyed.length = ss.length := by
    rw [← List.length_map (f := (·.2)), hrange, List.length_range]
  have hnumber : ∀ i (hi : i < keyed.length), keyed[i].2 = i := fun i hi => by
    have hget : (keyed.map (·.2))[i]? = some i := by
      rw [hrange, List.getElem?_range (hlen ▸ hi)]
    rw [List.getElem?_map, List.getElem?_eq_getElem hi] at hget
    exact Option.some.inj hget
  have hread : ∀ i (hi : i < keyed.length), along shape ss[i] = some keyed[i].1 := fun i hi => by
    obtain ⟨s, -, hs, hkey⟩ := exists_right hall (List.mem_mergeSort.2 (List.getElem_mem hi))
    rw [hnumber i hi, List.getElem?_toArray, List.getElem?_eq_getElem (hlen ▸ hi)] at hs
    rw [Option.some.inj hs]
    exact hkey
  have hpairwise : keyed.Pairwise fun a b => atOrBefore a.1 b.1 = true := by
    rw [List.pairwise_iff_getElem] at hsorted ⊢
    intro i j hi hj hij
    obtain ⟨a, b, ha, hb, hab⟩ := hsorted i j (hlen ▸ hi) (hlen ▸ hj) hij
    obtain rfl : keyed[i].1 = a := Option.some.inj ((hread i hi).symm.trans ha)
    obtain rfl : keyed[j].1 = b := Option.some.inj ((hread j hj).symm.trans hb)
    exact hab
  change List.Forall₂ _ (keyed.mergeSort fun a b => atOrBefore a.1 b.1) ss' at hall
  rw [List.mergeSort_of_pairwise hpairwise] at hall
  refine List.ext_getElem (hall.length_eq.symm.trans hlen) fun i hi hi' => ?_
  have hs : ss.toArray[keyed[i].2]? = some ss'[i] := (hall.get (hlen ▸ hi') hi).1
  rw [hnumber i (hlen ▸ hi'), List.getElem?_toArray, List.getElem?_eq_getElem hi'] at hs
  exact (Option.some.inj hs).symm

omit [Scalar K] in
/-- Snaps that stay in their order are settled in that order. -/
theorem getElem?_of_settled {xs final : Array (Snap K)} {ordered : List Nat} {ts : List (Snap K)}
    (hnodup : ss.Nodup) (hxs : xs = ss.toArray) (hperm : ordered.Perm (List.range ss.length))
    (hread : List.Forall₂ (fun i s => xs[i]? = some s) ordered ss)
    (hsettled : List.Forall₂ (fun i s => final[i]? = some s) ordered ts) {k : Nat}
    (hk : k < ss.length) : final[k]? = ts[k]? := by
  obtain ⟨p, hp, heq⟩ := List.mem_iff_getElem.1 (hperm.mem_iff.2 (List.mem_range.2 hk))
  have hlt := hread.length_eq ▸ hp
  have hlt' := hsettled.length_eq ▸ hp
  have hthis := hread.get hp hlt
  have hfinal := hsettled.get hp hlt'
  -- No other place in the order holds this snap.
  simp only [List.get_eq_getElem, heq, hxs, List.getElem?_toArray, List.getElem?_eq_getElem hk,
    Option.some.injEq] at hthis hfinal
  obtain rfl : k = p := (hnodup.getElem_inj_iff).1 hthis
  rw [hfinal, List.getElem?_eq_getElem hlt']

/-! ## §3. The overlay. -/

/-- The overlay of a graph before anything is cut. -/
def uncut (g : RoadGraph K) : Overlay K := Overlay.empty g.nodeCount g.edgeCount

/-- Work that succeeds on snaps with roads is the overlay. -/
theorem build_eq_of_yields {snaps : Array (Snap K)} {o : Overlay K}
    (hclosest : ∀ s ∈ snaps, s.closest.isNone = false) (h : Yields (build g) ⟨uncut g, snaps⟩ o w) :
    Overlay.build g snaps = (.ok o, w.snaps) := by
  have hrun : (build g).run.run ⟨Overlay.empty g.nodeCount g.edgeCount, snaps⟩ = (.ok o, w) := h
  simp only [Overlay.build, Array.findIdx?_eq_none_iff.2 hclosest, hrun]

/-- Snaps on one road, as the construction reads them. -/
theorem exists_inPlace (hplace : ∀ s ∈ ss, InPlace d shape s) {i : Nat} (hi : i < ss.length) :
    ∃ s, (⟨uncut g, ss.toArray⟩ : Splicing K).snaps[i]? = some s ∧ InPlace d shape s := by
  refine ⟨ss[i], ?_, hplace _ (List.getElem_mem hi)⟩
  show ss.toArray[i]? = some ss[i]
  rw [List.getElem?_toArray, List.getElem?_eq_getElem hi]

/-- **The road gets its chain**, through the snaps in their order. -/
theorem exists_roadSpliced {start last : Point K} (hshape : d.shape g = .ok shape)
    (hstart : shape.first? = some start) (hlast : shape.last? = some last) (hlong : 2 ≤ shape.length)
    {s₀ : Snap K} (hfirst : ss.head? = some s₀) (hd : s₀.closest = some d)
    (hplace : ∀ s ∈ ss, InPlace d shape s) (hsorted : ss.Pairwise (NotBehind shape)) :
    ∃ u v, Yields (spliceRoad g (List.range ss.length)) ⟨uncut g, ss.toArray⟩ u v ∧
      RoadSpliced g [] (List.range ss.length) ⟨uncut g, ss.toArray⟩ v d shape start last ss := by
  have hread : ∀ i ∈ List.range ss.length, ∃ s,
      (⟨uncut g, ss.toArray⟩ : Splicing K).snaps[i]? = some s ∧ InPlace d shape s :=
    fun i hi => exists_inPlace hplace (List.mem_range.1 hi)
  obtain ⟨rest, hss⟩ := List.head?_eq_some_iff.1 hfirst
  have hhead : (List.range ss.length).head? = some 0 := by
    rw [List.head?_range, if_neg (by simp [hss])]
  have hs₀ : (⟨uncut g, ss.toArray⟩ : Splicing K).snaps[0]? = some s₀ := by
    rw [hss]
    rfl
  obtain ⟨u, v, hsplice⟩ := succeeds_spliceRoad (w := ⟨uncut g, ss.toArray⟩) hhead hs₀ hd
    hshape hstart hlast hlong List.nodup_range
    (fun i hi => by
      obtain ⟨s, hs, hin⟩ := hread i hi
      obtain ⟨own, hown, hname⟩ := hin.exists_closest
      exact ⟨s, own, hs, hown, hname.base_eq⟩)
    (fun i hi => by
      obtain ⟨s, hs, hin⟩ := hread i hi
      obtain ⟨key, hkey⟩ := hin.exists_key
      exact ⟨s, key, hs, hkey⟩)
  refine ⟨u, v, hsplice, ?_⟩
  rcases spliceRoad_inv (Overlay.laid_empty _ _) List.nodup_range hsplice with
    ⟨hnil, -⟩ | ⟨closest, shape', start', last', ss', hs⟩
  · rw [hnil] at hhead
    cases hhead
  -- The road and the order are the ones of the snaps.
  obtain ⟨i, t, hi, ht, hclosest⟩ := hs.exists_first
  obtain rfl : i = 0 := Option.some.inj (hi.symm.trans hhead)
  obtain rfl : t = s₀ := Option.some.inj (ht.symm.trans hs₀)
  obtain rfl : closest = d := Option.some.inj (hclosest.symm.trans hd)
  obtain rfl : shape' = shape := Except.ok.inj (hs.shape_eq.symm.trans hshape)
  obtain rfl : start' = start := Option.some.inj (hs.start_eq.symm.trans hstart)
  obtain rfl : last' = last := Option.some.inj (hs.last_eq.symm.trans hlast)
  obtain rfl := sortedAlong_eq hs.sorted hsorted
  exact hs

/-- **Snaps that lie apart**: each has a point, and not at the spot of the one before it. -/
def ApartFrom : Point K → List (Snap K) → Prop
  | _, [] => True
  | p, s :: ss => ∃ q, s.point = some q ∧ p.coincides q = false ∧ ApartFrom q ss

/-- Each snap that lies apart is a stop. -/
theorem ApartFrom.stops_points {a : Anchor K} (h : ApartFrom a.point ss) (n : NodeId) :
    (stopsFrom shape a n ss).map (·.point) = ss.filterMap (·.point) := by
  induction ss generalizing a n with
  | nil => rfl
  | cons s ss ih =>
    obtain ⟨q, hq, hapart, hrest⟩ := h
    have hnext : (anchorAt a s n).point = q := by simp [anchorAt, hq]
    unfold stopsFrom
    rw [hq, Option.getD_some, if_neg (by simp [hapart]), List.map_cons,
      ih (a := anchorAt a s n) (hnext.symm ▸ hrest), List.filterMap_cons_some hq]

/-- Each snap that lies apart becomes a virtual node. -/
theorem ApartFrom.settled {a : Anchor K} (h : ApartFrom a.point ss) (n : NodeId) :
    settledFrom a n ss = ss.mapIdx fun k s => s.setNode (n + k) := by
  induction ss generalizing a n with
  | nil => rfl
  | cons s ss ih =>
    obtain ⟨q, hq, hapart, hrest⟩ := h
    have hnext : (anchorAt a s n).point = q := by simp [anchorAt, hq]
    unfold settledFrom
    rw [hq, Option.getD_some, if_neg (by simp [hapart]), List.mapIdx_cons,
      ih (a := anchorAt a s n) (hnext.symm ▸ hrest)]
    simp only [Nat.add_zero, Nat.add_assoc, Nat.add_comm 1]

/-- **A chain through snaps that lie apart** passes the point of each. -/
theorem ApartFrom.chain_points {start : Point K} (h : ApartFrom start ss) (o : Overlay K)
    (d : DirectedEdge) (shape : Polyline K) (last : Point K) :
    (chainOf o d shape start last ss).points = ss.filterMap (·.point) :=
  ApartFrom.stops_points (a := baseAnchor d start) h _

/-- The first part of a chain leads to the first snap, if that lies apart from the base node. -/
theorem chainOf_first_part (o : Overlay K) (d : DirectedEdge) (shape : Polyline K)
    {start last p : Point K} {s : Snap K} (hs : s.point = some p)
    (hapart : start.coincides p = false) (ss : List (Snap K)) :
    (chainOf o d shape start last (s :: ss)).parts[0]? =
      some (partToSnap shape (baseAnchor d start) s) := by
  have hfirst : ¬ (baseAnchor d start).point.coincides (s.point.getD (baseAnchor d start).point) =
      true := by simp [baseAnchor, hs, hapart]
  show ([] ++ (stopsFrom shape (baseAnchor d start) _ (s :: ss)).map (·.part) ++ _)[0]? = _
  unfold stopsFrom
  rw [if_neg hfirst]
  rfl

/-- A chain through two snaps that lie apart, each at a point of its own. -/
theorem chainOf_pair (o : Overlay K) (d : DirectedEdge) (shape : Polyline K)
    (start last : Point K) {p q : Point K} {s t : Snap K} (hs : s.point = some p)
    (ht : t.point = some q) (hstart : start.coincides p = false)
    (happart : p.coincides q = false) :
    (chainOf o d shape start last [s, t]).points = [p, q] ∧
      (chainOf o d shape start last [s, t]).parts[1]? = some (partToSnap shape
        (anchorAt (baseAnchor d start) s (o.firstNode + o.nodeCount)) t) := by
  have hstops : stopsOf o d shape start [s, t] =
      [⟨s, p, partToSnap shape (baseAnchor d start) s⟩, ⟨t, q, partToSnap shape
        (anchorAt (baseAnchor d start) s (o.firstNode + o.nodeCount)) t⟩] := by
    unfold stopsOf stopsFrom stopsFrom stopsFrom
    simp [anchorAt, baseAnchor, hs, ht, hstart, happart]
  unfold chainOf
  rw [hstops]
  exact ⟨rfl, rfl⟩

/-- No more virtual nodes than snaps. -/
theorem nodeCount_chainOf_le {o o' : Overlay K} {start last : Point K} (hempty : o'.nodeCount = 0)
    (h : o.Laid [chainOf o' d shape start last ss]) : o.nodeCount ≤ ss.length := by
  refine Nat.le_of_not_lt fun hlt => ?_
  obtain ⟨c, hc, j, hj, heq⟩ := h.exists_node _ hlt
  obtain rfl := List.mem_singleton.1 hc
  have hstart : (chainOf o' d shape start last ss).start = 0 := hempty
  have hpoints : (chainOf o' d shape start last ss).points.length ≤ ss.length := by
    have hle := (stops_sublist shape (baseAnchor d start) (o'.firstNode + o'.nodeCount) ss).length_le
    rw [List.length_map] at hle
    unfold chainOf withStops
    rw [Chain.close, List.length_append, List.length_map]
    exact (Nat.zero_add _).trans_le hle
  omega

/-- **The overlay of snaps on one road**: it is built, and consists of the chain of the road through
the snaps in their order; in that order the snaps are settled.  The road need not end at the nodes
that the snaps name. -/
theorem build_named (hdir : Unturned g d) {start last : Point K} (hshape : d.shape g = .ok shape)
    (hstart : shape.first? = some start) (hlast : shape.last? = some last) (hlong : 2 ≤ shape.length)
    {s₀ : Snap K} (hfirst : ss.head? = some s₀) (hd : s₀.closest = some d)
    (hplace : ∀ s ∈ ss, InPlace d shape s) (hsorted : ss.Pairwise (NotBehind shape))
    (hstops : stopsOf (uncut g) d shape start ss ≠ [])
    (hends : d.base < g.nodeCount ∧ d.adj < g.nodeCount) :
    ∃ o final, Overlay.build g ss.toArray = (.ok o, final) ∧
      Overlay.Fastened g o [chainOf (uncut g) d shape start last ss] ∧
      (ss.Nodup → ∀ k < ss.length,
        final[k]? = (settledFrom (baseAnchor d start) g.nodeCount ss)[k]?) := by
  -- First the snaps are filed in one group.
  have hprepare := yields_prepareAll hdir fun i hi => exists_inPlace (g := g) hplace hi
  obtain ⟨rest, hss⟩ := List.head?_eq_some_iff.1 hfirst
  rw [if_neg (show ss.length ≠ 0 by simp [hss])] at hprepare
  -- Then the road gets its chain.
  obtain ⟨u, v, hsplice, hs⟩ := exists_roadSpliced hshape hstart hlast hlong hfirst hd hplace hsorted
  rcases hs.laid with ⟨hnone, -⟩ | ⟨-, -, hlaid⟩
  · exact absurd hnone hstops
  -- Last come the deltas.
  have hnode : v.overlay.firstNode = g.nodeCount := hs.grows.firstNode
  have hempty : v.overlay.deltas = ∅ := hs.grows.deltas
  have hreal : Overlay.RealEnds v.overlay [chainOf (uncut g) d shape start last ss] := by
    intro c hc
    obtain rfl := List.mem_singleton.1 hc
    rw [hnode]
    exact hends
  have hdistinct : ([chainOf (uncut g) d shape start last ss].map
      (·.road.edge)).Nodup := List.nodup_singleton _
  obtain ⟨o, ho⟩ := hlaid.exists_buildDeltas hdistinct hreal hempty
  have hfastened := hlaid.buildDeltas hnode hs.grows.firstEdge hdistinct hreal hempty ho
  have hbuild : Yields (build g) ⟨uncut g, ss.toArray⟩ o v := by
    unfold build
    simp only [yields_bind, yields_get, yields_lift]
    refine ⟨_, _, ⟨rfl, rfl⟩, _, _, hprepare, u, v, ?_, _, _, ⟨rfl, rfl⟩, ho, rfl⟩
    exact yields_bind.2 ⟨u, v, hsplice, yields_pure.2 ⟨rfl, rfl⟩⟩
  refine ⟨o, v.snaps, build_eq_of_yields (fun s hs => ?_) hbuild, hfastened, fun hnodup k hk => ?_⟩
  · obtain ⟨own, hown, -⟩ := (hplace s (by simpa using hs)).exists_closest
    rw [hown]
    rfl
  · obtain ⟨ordered, hperm, hordered, hsettled⟩ := hs.settled
    exact getElem?_of_settled hnodup rfl hperm hordered hsettled hk

/-- **Snaps on a road of the graph**, which ends at the nodes that they name. -/
theorem build_road (hg : g.WellFormed) (hroad : g.HasDirection d)
    (hdir : Unturned g d) {start last : Point K} (hshape : d.shape g = .ok shape)
    (hstart : shape.first? = some start) (hlast : shape.last? = some last) (hlong : 2 ≤ shape.length)
    {s₀ : Snap K} (hfirst : ss.head? = some s₀) (hd : s₀.closest = some d)
    (hplace : ∀ s ∈ ss, InPlace d shape s) (hsorted : ss.Pairwise (NotBehind shape))
    (hstops : stopsOf (uncut g) d shape start ss ≠ []) :
    ∃ o final, Overlay.build g ss.toArray = (.ok o, final) ∧
      Overlay.Spliced g o [chainOf (uncut g) d shape start last ss] ∧
      (ss.Nodup → ∀ k < ss.length,
        final[k]? = (settledFrom (baseAnchor d start) g.nodeCount ss)[k]?) := by
  obtain ⟨o, final, hbuild, hfastened, hsettled⟩ := build_named hdir hshape hstart hlast hlong hfirst
    hd hplace hsorted hstops ⟨hg.touches_lt hroad.touches.1, hg.touches_lt hroad.touches.2⟩
  exact ⟨o, final, hbuild, ⟨hfastened, fun c hc => List.mem_singleton.1 hc ▸ hroad⟩, hsettled⟩

/-! ## §4. A graph of one road. -/

open RoadGraph

/-- A road from a lower node to a higher one is never turned. -/
theorem runsBackwards_onlyRoad (g : RoadGraph K) : Snap.runsBackwards g onlyRoad = .ok false := rfl

theorem unturned_onlyRoad (g : RoadGraph K) : Unturned g onlyRoad :=
  ⟨runsBackwards_onlyRoad g, fun hloop => absurd hloop Nat.zero_ne_one⟩

section

variable (p q : Point K) (pillars : List (Point K)) (distance : K) (word : Nat)

theorem shape_onlyRoad : onlyRoad.shape (oneRoad p q pillars distance word) =
    .ok ⟨(p :: pillars) ++ [q], false⟩ := by
  obtain ⟨hnodes, hroads, -, his3d⟩ := oneRoad_eq p q pillars distance word
  unfold DirectedEdge.shape RoadGraph.edgeNodes RoadGraph.fullGeometry
  rw [hnodes, hroads, his3d]
  rfl

/-- The only road has one name. -/
theorem closest_of_inPlace {shape : Polyline K} {s : Snap K} (h : InPlace onlyRoad shape s) :
    s.closest = some onlyRoad := by
  obtain ⟨own, hown, rfl | ⟨hloop, -⟩⟩ := h.exists_closest
  · exact hown
  · exact absurd hloop Nat.zero_ne_one

/-- Snaps that name the only road lie on a road. -/
theorem onRoads_onlyRoad {snaps : Array (Snap K)}
    (h : ∀ (i : Nat) s, snaps[i]? = some s → s.closest = some onlyRoad) :
    OnRoads (oneRoad p q pillars distance word) snaps := by
  intro i s hs d hd
  obtain rfl : onlyRoad = d := Option.some.inj ((h i s hs).symm.trans hd)
  exact hasDirection_onlyRoad p q pillars distance word

/-- **Cutting the only road**: snaps in their order along it. -/
theorem build_onlyRoad {s : Snap K} (ss : List (Snap K))
    (hplace : ∀ t ∈ s :: ss, InPlace onlyRoad ⟨(p :: pillars) ++ [q], false⟩ t)
    (hsorted : (s :: ss).Pairwise (NotBehind ⟨(p :: pillars) ++ [q], false⟩))
    (hapart : p.coincides (s.point.getD p) = false) :
    ∃ o final, Overlay.build (oneRoad p q pillars distance word) (s :: ss).toArray =
        (.ok o, final) ∧
      Overlay.Spliced (oneRoad p q pillars distance word) o
        [chainOf (uncut (oneRoad p q pillars distance word)) onlyRoad
          ⟨(p :: pillars) ++ [q], false⟩ p q (s :: ss)] ∧
      ((s :: ss).Nodup → ∀ k < (s :: ss).length, final[k]? = (settledFrom (baseAnchor onlyRoad p)
        (oneRoad p q pillars distance word).nodeCount (s :: ss))[k]?) := by
  refine build_road (built_oneRoad p q pillars distance word).wellFormed
    (hasDirection_onlyRoad p q pillars distance word) (unturned_onlyRoad _)
    (shape_onlyRoad p q pillars distance word) rfl (List.getLast?_concat) ?_ rfl
    (closest_of_inPlace (hplace s List.mem_cons_self)) hplace hsorted ?_
  · simp [Polyline.length]
  · unfold stopsOf stopsFrom
    rw [if_neg (by simpa [baseAnchor] using hapart)]
    simp

end

/-! ## §5. The length of a chain. -/

omit [Scalar K] in
theorem forall_pieceShape {P : Point K → Prop} {a : Anchor K} {point : Point K}
    (hshape : ∀ p ∈ shape.points, P p) (ha : P a.point) (hpoint : P point) (isPillar : Bool)
    (i : Nat) : ∀ p ∈ (pieceShape shape a isPillar point i).points, P p := by
  intro p hp
  unfold pieceShape at hp
  simp only [List.cons_append, List.mem_cons, List.mem_append] at hp
  rcases hp with rfl | hp | hp
  · exact ha
  · exact hshape p (List.mem_of_mem_take (List.mem_of_mem_drop hp))
  · split at hp
    · simp at hp
    · exact List.mem_singleton.1 hp ▸ hpoint

/-- **The parts of a chain** lead from the base node, a snap or both to a snap or the last point. -/
theorem exists_partTo {P : Point K → Prop} {a : Anchor K} {n : NodeId} {last : Point K} {i : Nat}
    (ha : P a.point) (hss : ∀ s ∈ ss, ∀ p, s.point = some p → P p) (hlast : P last) {part : Part K}
    (hpart : part ∈ (stopsFrom shape a n ss).map (·.part) ++
      [partTo shape (lastAnchor a n ss) false last i]) :
    ∃ a isPillar point i, part = partTo shape a isPillar point i ∧ P a.point ∧ P point := by
  induction ss generalizing a n with
  | nil => exact ⟨a, false, last, i, List.mem_singleton.1 hpart, ha, hlast⟩
  | cons s ss ih =>
    have hrest : ∀ t ∈ ss, ∀ p, t.point = some p → P p := fun t ht => hss t (by simp [ht])
    have hpoint : P (s.point.getD a.point) := by
      cases hp : s.point with
      | none => exact ha
      | some p => exact hss s (by simp) p hp
    unfold stopsFrom lastAnchor at hpart
    split at hpart
    · exact ih ha hrest hpart
    · rcases List.mem_cons.1 hpart with rfl | hpart
      · exact ⟨a, _, _, _, rfl, ha, hpoint⟩
      · exact ih (a := anchorAt a s n) hpoint hrest hpart

/-- **A chain on a flat shape of finite positions** has a finite length. -/
theorem chainOf_length {shape : Polyline Exact} {start last : Point Exact} {ss : List (Snap Exact)}
    (o : Overlay Exact) (hflat : shape.is3d = false)
    (hshape : ∀ p ∈ shape.points, p.lat.IsReal ∧ p.lon.IsReal)
    (hstart : shape.first? = some start) (hlast : shape.last? = some last)
    (hss : ∀ s ∈ ss, ∀ p, s.point = some p → p.lat.IsReal ∧ p.lon.IsReal) :
    ∃ x, 0 ≤ x ∧ total ((chainOf o d shape start last ss).parts.map (·.distance)) = .real x := by
  have hpart : ∀ part ∈ (chainOf o d shape start last ss).parts,
      ∃ x, 0 ≤ x ∧ part.distance = .real x := by
    intro part hmem
    obtain ⟨a, isPillar, point, i, rfl, ha, hpoint⟩ :=
      exists_partTo (P := fun p => p.lat.IsReal ∧ p.lon.IsReal) (a := baseAnchor d start)
        (hshape _ (List.mem_of_mem_head? hstart)) hss (hshape _ (List.mem_of_getLast? hlast)) hmem
    exact Exact.lengthOf_real hflat (forall_pieceShape hshape ha hpoint isPillar i)
  generalize (chainOf o d shape start last ss).parts = parts at hpart
  induction parts with
  | nil => exact ⟨0, le_rfl, Exact.total_nil⟩
  | cons part parts ih =>
    obtain ⟨x, hx, heq⟩ := hpart part (by simp)
    obtain ⟨y, hy, hsum⟩ := ih fun p hp => hpart p (by simp [hp])
    refine ⟨x + y, add_nonneg hx hy, ?_⟩
    rw [List.map_cons, Exact.total_cons, heq, hsum, Exact.real_add]

/-! ## §6. A road along a parallel. -/

section

open Exact (onParallel)

variable (a : ℝ)

/-- Four positions along a parallel. -/
noncomputable def levelShape : Polyline Exact :=
  ⟨(onParallel a 0 :: [onParallel a 1, onParallel a 2]) ++ [onParallel a 3], false⟩

/-- **A road along a parallel**, with two inner points. -/
noncomputable def levelRoad (distance : Exact) (word : Nat) : RoadGraph Exact :=
  oneRoad (onParallel a 0) (onParallel a 3) [onParallel a 1, onParallel a 2] distance word

/-- A fix at the first inner point. -/
noncomputable def atInner : Snap Exact :=
  { Snap.onEdge (onParallel a 1) onlyRoad 1 .pillar with point := some (onParallel a 1) }

/-- A fix between the two inner points. -/
noncomputable def between : Snap Exact :=
  { Snap.onEdge (onParallel a (3 / 2)) onlyRoad 1 .edge with
    point := some (onParallel a (3 / 2)) }

/-- A fix on the last segment of the road, at the other end. -/
noncomputable def atFarEnd : Snap Exact :=
  { Snap.onEdge (onParallel 0 3) onlyRoad 2 .edge with point := some (onParallel 0 3) }

theorem along_atInner : along (levelShape a) (atInner a) = some (1, .real 0) := by
  show some (1, Geo.planeNormalizedDistance (onParallel a 1).lat (onParallel a 1).lon
    (onParallel a 1).lat (onParallel a 1).lon) = _
  rw [Exact.planeNormalizedDistance_onParallel]
  simp

theorem along_between : along (levelShape a) (between a) =
    some (1, .real ((Real.cos (a * (Real.pi / 180)) * ((3 / 2 - 1) * (Real.pi / 180))) ^ 2)) := by
  show some (1, Geo.planeNormalizedDistance (onParallel a 1).lat (onParallel a 1).lon
    (onParallel a (3 / 2)).lat (onParallel a (3 / 2)).lon) = _
  rw [Exact.planeNormalizedDistance_onParallel]

theorem inPlace_atInner : InPlace onlyRoad (levelShape a) (atInner a) :=
  ⟨⟨_, rfl, .inl rfl⟩, by simp [atInner, Snap.onEdge], ⟨_, rfl⟩, ⟨_, along_atInner a⟩⟩

theorem inPlace_between : InPlace onlyRoad (levelShape a) (between a) :=
  ⟨⟨_, rfl, .inl rfl⟩, by simp [between, Snap.onEdge], ⟨_, rfl⟩, ⟨_, along_between a⟩⟩

/-- **The chain** of the road through two fixes. -/
noncomputable def levelChain (s t : Snap Exact) : Chain Exact :=
  chainOf (Overlay.empty 2 1) onlyRoad (levelShape a) (onParallel a 0) (onParallel a 3) [s, t]

/-- The length of that chain. -/
noncomputable def levelLength (s t : Snap Exact) : Exact :=
  total ((levelChain a s t).parts.map (·.distance))

/-- The road is cut at both fixes, in one order or in the other one. -/
theorem build_levelRoad (distance : Exact) (word : Nat) {s t : Snap Exact}
    (hs : s = atInner a ∨ s = between a) (ht : t = atInner a ∨ t = between a)
    (hsorted : NotBehind (levelShape a) s t) :
    ∃ o final, Overlay.build (levelRoad a distance word) #[s, t] = (.ok o, final) ∧
      Overlay.Spliced (levelRoad a distance word) o [levelChain a s t] := by
  have hplace : ∀ u, u = atInner a ∨ u = between a → InPlace onlyRoad (levelShape a) u := by
    rintro u (rfl | rfl)
    · exact inPlace_atInner a
    · exact inPlace_between a
  have hall : ∀ u ∈ [s, t], InPlace onlyRoad (levelShape a) u := by
    intro u hu
    rcases List.mem_cons.1 hu with rfl | hu
    · exact hplace _ hs
    · exact List.mem_singleton.1 hu ▸ hplace _ ht
  have hapart : (onParallel a 0).coincides (s.point.getD (onParallel a 0)) = false := by
    rcases hs with rfl | rfl
    · exact Exact.coincides_onParallel a (by norm_num)
    · exact Exact.coincides_onParallel a (by norm_num)
  obtain ⟨o, final, hbuild, hspliced, -⟩ := build_onlyRoad (onParallel a 0) (onParallel a 3)
    [onParallel a 1, onParallel a 2] distance word [t] hall (List.pairwise_pair.2 hsorted) hapart
  have huncut : uncut (levelRoad a distance word) = Overlay.empty 2 1 := by
    obtain ⟨hnodes, hroads, -, -⟩ := oneRoad_eq (onParallel a 0) (onParallel a 3)
      [onParallel a 1, onParallel a 2] distance word
    unfold uncut levelRoad RoadGraph.nodeCount RoadGraph.edgeCount
    rw [hnodes, hroads]
    rfl
  refine ⟨o, final, hbuild, ?_⟩
  rw [levelChain, ← huncut]
  exact hspliced

/-- The inner point comes before the segment behind it. -/
theorem notBehind_between : NotBehind (levelShape a) (atInner a) (between a) := by
  refine ⟨_, _, along_atInner a, along_between a, atOrBefore_iff.2 (.inr ⟨rfl, ?_⟩)⟩
  rw [Exact.order_isLE_iff, Exact.real_le_real]
  exact .inl (sq_nonneg _)

/-- Two fixes on the road. -/
theorem closest_levelRoad {s t u : Snap Exact} (hs : s = atInner a ∨ s = between a)
    (ht : t = atInner a ∨ t = between a) {i : Nat} (hu : (#[s, t] : Array (Snap Exact))[i]? = some u) :
    (u = atInner a ∨ u = between a) ∧ u.closest = some onlyRoad := by
  have hmem : u ∈ [s, t] := List.mem_of_getElem? (by rwa [List.getElem?_toArray] at hu)
  have hcases : u = atInner a ∨ u = between a := by
    rcases List.mem_cons.1 hmem with rfl | hmem
    · exact hs
    · exact List.mem_singleton.1 hmem ▸ ht
  refine ⟨hcases, ?_⟩
  rcases hcases with rfl | rfl <;> rfl

theorem onRoads_levelRoad (distance : Exact) (word : Nat) {s t : Snap Exact}
    (hs : s = atInner a ∨ s = between a) (ht : t = atInner a ∨ t = between a) :
    OnRoads (levelRoad a distance word) #[s, t] :=
  onRoads_onlyRoad _ _ _ _ _ fun _ _ hu => (closest_levelRoad a hs ht hu).2

theorem levelLength_real {s t : Snap Exact} (hs : s = atInner a ∨ s = between a)
    (ht : t = atInner a ∨ t = between a) : ∃ x, 0 ≤ x ∧ levelLength a s t = .real x := by
  refine chainOf_length _ rfl ?_ rfl rfl ?_
  · intro p hp
    simp only [levelShape, List.cons_append, List.nil_append, List.mem_cons, List.not_mem_nil,
      or_false] at hp
    rcases hp with rfl | rfl | rfl | rfl <;> exact ⟨⟨a, rfl⟩, ⟨_, rfl⟩⟩
  · intro u hu p hp
    have hu : u = atInner a ∨ u = between a := by
      rcases List.mem_cons.1 hu with rfl | hu
      · exact hs
      · exact List.mem_singleton.1 hu ▸ ht
    rcases hu with rfl | rfl
    · exact Option.some.inj hp ▸ ⟨⟨a, rfl⟩, ⟨1, rfl⟩⟩
    · exact Option.some.inj hp ▸ ⟨⟨a, rfl⟩, ⟨3 / 2, rfl⟩⟩

theorem nodeCount_levelChain {o : Overlay Exact} {s t : Snap Exact}
    (h : o.Laid [levelChain a s t]) : 0 < o.nodeCount ∧ o.nodeCount ≤ 2 := by
  have hmem : levelChain a s t ∈ [levelChain a s t] := List.mem_singleton.2 rfl
  have hpos := List.length_pos_iff.2 (h.points_ne _ hmem)
  have hnode := (h.carries _ hmem).node 0 _ (List.getElem?_eq_getElem hpos)
  exact ⟨Nat.zero_lt_of_lt (Array.getElem?_eq_some_iff.1 hnode).1, nodeCount_chainOf_le rfl h⟩

/-- The two fixes lie apart. -/
theorem apartFrom_level : ApartFrom (onParallel a 0) [atInner a, between a] :=
  ⟨_, rfl, Exact.coincides_onParallel a (by norm_num), _, rfl,
    Exact.coincides_onParallel a (by norm_num), trivial⟩

/-- Both fixes become virtual nodes. -/
theorem points_levelChain : (levelChain a (atInner a) (between a)).points =
    [onParallel a 1, onParallel a (3 / 2)] := (apartFrom_level a).chain_points _ _ _ _

/-- **A road that is cut twice** and as long as its parts together. -/
noncomputable def cutRoad (word : Nat) : RoadGraph Exact :=
  levelRoad 0 (levelLength 0 (atInner 0) (between 0)) word

/-- The fixes that cut it. -/
noncomputable def cutSnaps : Array (Snap Exact) := #[atInner 0, between 0]

theorem built_cutRoad (word : Nat) : (cutRoad word).Built := built_oneRoad _ _ _ _ _

theorem edgeCount_cutRoad (word : Nat) : (cutRoad word).edgeCount = 1 := by
  unfold RoadGraph.edgeCount cutRoad levelRoad
  rw [(oneRoad_eq _ _ _ _ _).2.1]
  rfl

theorem onRoads_cutRoad (word : Nat) : OnRoads (cutRoad word) cutSnaps :=
  onRoads_levelRoad 0 _ word (.inl rfl) (.inr rfl)

theorem build_cutRoad (word : Nat) :
    ∃ o final, Overlay.build (cutRoad word) cutSnaps = (.ok o, final) ∧
      Overlay.Spliced (cutRoad word) o [levelChain 0 (atInner 0) (between 0)] :=
  build_levelRoad 0 _ word (.inl rfl) (.inr rfl) (notBehind_between 0)

end

end RoadSplice.Splicing

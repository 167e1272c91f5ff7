/-
  RoadSplice.Proofs.Search.Lines — lines put together from shapes.

  Where each shape begins with the point that the one before it ends with, the shapes are put
  together by leaving out the first point of all but the first.  Nothing is lost: each shape is a
  stretch of the line, and two stretches in a row share one point.  The line of a path is put
  together so from the shapes of its edges, if the graph finds them again as they were travelled.
-/
import RoadSplice.Proofs.Search.Walk

namespace RoadSplice

/-! ## §1. Lists put together. -/

section

variable {α : Type} {a b : α} {l : List α} {ls : List (List α)}

/-- **Lists put together** behind a first entry, each without its own. -/
def threaded (a : α) (ls : List (List α)) : List α := a :: ls.flatMap (·.tail)

/-- Where a list begins among lists put together: each of those before it takes as many places as
it has entries, but one. -/
def offset (ls : List (List α)) (i : Nat) : Nat := ((ls.take i).map (·.length - 1)).sum

theorem length_threaded (a : α) (ls : List (List α)) :
    (threaded a ls).length = offset ls ls.length + 1 := by
  unfold threaded offset
  rw [List.take_length, List.length_cons, List.length_flatMap]
  simp

theorem threaded_cons (hl : l.head? = some a) (ls : List (List α)) :
    threaded a (l :: ls) = l ++ ls.flatMap (·.tail) := by
  unfold threaded
  rw [List.flatMap_cons, ← List.cons_append, List.cons_head?_tail hl]

/-- A list that begins somewhere ends somewhere. -/
theorem exists_getLast? (hl : l.head? = some a) : ∃ b, l.getLast? = some b := by
  cases l with
  | nil => cases hl
  | cons x xs => exact ⟨_, List.getLast?_eq_some_getLast (List.cons_ne_nil x xs)⟩

/-- **Behind the first list** the others are put together, from its last entry on. -/
theorem drop_threaded_cons (hl : l.head? = some a) (hb : l.getLast? = some b)
    (ls : List (List α)) : (threaded a (l :: ls)).drop (l.length - 1) = threaded b ls := by
  rw [threaded_cons hl, List.drop_append_of_le_length (Nat.sub_le _ _)]
  have hsplit := List.dropLast_append_getLast? b hb
  have hlast : l.drop (l.length - 1) = [b] := by
    conv_lhs => rw [← hsplit]
    rw [List.drop_append_of_le_length (by simp), List.drop_eq_nil_of_le (by simp)]
    rfl
  rw [hlast]
  rfl

theorem offset_cons (l : List α) (ls : List (List α)) (i : Nat) :
    offset (l :: ls) (i + 1) = l.length - 1 + offset ls i := by
  simp [offset]

/-- **Each list is a stretch** of the lists put together. -/
theorem take_drop_threaded (h : Joined List.head? List.getLast? (some a) ls (some b)) {i : Nat}
    (hl : ls[i]? = some l) : ((threaded a ls).drop (offset ls i)).take l.length = l := by
  induction ls generalizing a i with
  | nil => cases hl
  | cons k ls ih =>
    obtain ⟨hhead, htail⟩ := h
    cases i with
    | zero =>
      obtain rfl : k = l := Option.some.inj hl
      rw [threaded_cons hhead]
      exact List.take_left
    | succ i =>
      obtain ⟨c, hc⟩ := exists_getLast? hhead
      rw [offset_cons, ← List.drop_drop, drop_threaded_cons hhead hc]
      exact ih (hc ▸ htail) hl

/-- The entries with which the lists begin, and the one with which the last list ends. -/
theorem getElem?_offset (h : Joined List.head? List.getLast? (some a) ls (some b)) (i : Nat)
    (hi : i ≤ ls.length) :
    (threaded a ls)[offset ls i]? = (some a :: ls.map List.getLast?)[i]?.join := by
  induction ls generalizing a i with
  | nil =>
    obtain rfl := Nat.le_zero.1 hi
    rfl
  | cons k ls ih =>
    obtain ⟨hhead, htail⟩ := h
    cases i with
    | zero => rfl
    | succ i =>
      obtain ⟨c, hc⟩ := exists_getLast? hhead
      rw [offset_cons, ← List.getElem?_drop, drop_threaded_cons hhead hc,
        ih (hc ▸ htail) i (Nat.le_of_succ_le_succ hi), List.map_cons, hc]
      rfl

/-- **Places along lists put together**: where each list leads from one place to another one, each
place is passed where the list from there begins, and the last one at the end. -/
theorem getElem?_threaded {ι τ : Type} {base adj : ι → τ} {f : ι → List α} {place : τ → Option α}
    {xs : List ι} {u v : τ} (hjoined : Joined base adj u xs v)
    (hbase : ∀ x ∈ xs, (f x).head? = place (base x))
    (hadj : ∀ x ∈ xs, (f x).getLast? = place (adj x)) (hu : place u = some a)
    (hplaced : ∀ x ∈ xs, ∃ c, place (adj x) = some c) (i : Nat) (n : τ)
    (hn : (u :: xs.map adj)[i]? = some n) :
    ∃ c, place n = some c ∧ (threaded a (xs.map f))[offset (xs.map f) i]? = some c := by
  have hall : ∀ m ∈ u :: xs.map adj, ∃ c, place m = some c := by
    intro m hm
    obtain rfl | hm := List.mem_cons.1 hm
    · exact ⟨a, hu⟩
    · obtain ⟨x, hx, rfl⟩ := List.mem_map.1 hm
      exact hplaced x hx
  obtain ⟨c, hc⟩ := hall n (List.mem_of_getElem? hn)
  obtain ⟨b, hb⟩ := hall v (List.mem_of_getLast? hjoined.getLast?_eq)
  have hlists : Joined List.head? List.getLast? (some a) (xs.map f) (some b) := by
    rw [← hu, ← hb, Joined.map]
    exact hjoined.through place fun x hx => ⟨hbase x hx, hadj x hx⟩
  -- The first place is where the lists begin, each other one where the list before it ends.
  have hplaces : some a :: (xs.map f).map List.getLast? = (u :: xs.map adj).map place := by
    rw [List.map_cons, hu, List.map_map, List.map_map]
    exact congrArg _ (List.map_congr_left hadj)
  have hlt : i < (u :: xs.map adj).length := (List.getElem?_eq_some_iff.1 hn).1
  refine ⟨c, hc, (getElem?_offset hlists i ?_).trans ?_⟩
  · simpa using Nat.le_of_lt_succ hlt
  · rw [hplaces, List.getElem?_map, hn, ← hc]
    rfl

/-- Where the last list ends, the lists put together end. -/
theorem getLast?_threaded (h : Joined List.head? List.getLast? (some a) ls (some b)) :
    (threaded a ls).getLast? = some b := by
  induction ls generalizing a with
  | nil => exact h
  | cons k ls ih =>
    obtain ⟨hhead, htail⟩ := h
    obtain ⟨c, hc⟩ := exists_getLast? hhead
    have hrest := ih (hc ▸ htail)
    rw [← drop_threaded_cons hhead hc, List.getLast?_drop, if_neg] at hrest
    · exact hrest
    · rw [threaded_cons hhead, List.length_append]
      have hpos := List.length_pos_of_mem (List.mem_of_getLast? hc)
      omega

end

variable {K G : Type} [Network G K] {g : G} {s t : NodeId} {p : Path K}
  {vs : List (EdgeView K)}

/-! ## §2. Paths that a graph finds again. -/

/-- **An edge spans its nodes**: its shape begins and ends where they lie. -/
structure EdgeView.Spans (g : G) (v : EdgeView K) : Prop where
  base : ∃ a, Network.coordinate? g v.base = some a ∧ v.shape.first? = some a
  adj : ∃ b, Network.coordinate? g v.adj = some b ∧ v.shape.last? = some b

theorem EdgeView.Spans.ends {v : EdgeView K} (h : v.Spans g) :
    v.shape.points.head? = Network.coordinate? g v.base ∧
      v.shape.points.getLast? = Network.coordinate? g v.adj := by
  obtain ⟨⟨a, ha, hfirst⟩, ⟨b, hb, hlast⟩⟩ := h
  exact ⟨hfirst.trans ha.symm, hlast.trans hb.symm⟩

/-- **A path traces edges**: the graph finds each of them again by the number and the node that the
path names, and each spans its nodes. -/
structure Path.Traces (g : G) (s t : NodeId) (p : Path K) (vs : List (EdgeView K)) : Prop where
  joined : Joined (·.base) (·.adj) s vs t
  nodes : p.nodes = s :: vs.map (·.adj)
  found : List.Forall₂ (fun e v => Network.edge g e (some v.adj) = .ok v) p.edges vs
  spans : ∀ v ∈ vs, v.Spans g

/-- **A line along a path**: it is the geometry of the path, and it is put together from the shapes
of the edges.  It begins at the first node, ends at the last one, passes all of them in order, and
has each shape as a stretch that begins where the one before it ends. -/
structure Path.LineAlong (g : G) (p : Path K) (shapes : List (Polyline K)) (line : Polyline K) :
    Prop where
  geometry_eq : p.geometry g = .ok line
  shapes_eq : p.shapes g = .ok shapes
  nodes_length : p.nodes.length = p.edges.length + 1
  first_eq : ∃ n a, p.nodes.head? = some n ∧ Network.coordinate? g n = some a ∧
    line.first? = some a
  last_eq : ∃ n a, p.nodes.getLast? = some n ∧ Network.coordinate? g n = some a ∧
    line.last? = some a
  length_eq : line.length = 1 + (shapes.map (·.length - 1)).sum
  passes : ∀ (i : Nat) n, p.nodes[i]? = some n → ∃ a, Network.coordinate? g n = some a ∧
    line.get? (offset (shapes.map (·.points)) i) = some a
  stretch : ∀ (i : Nat) shape, shapes[i]? = some shape →
    (line.points.drop (offset (shapes.map (·.points)) i)).take shape.length = shape.points

/-- A path with a line along it. -/
def Path.Continuous (g : G) (p : Path K) : Prop := ∃ shapes line, p.LineAlong g shapes line

/-- Shapes put behind a first one. -/
theorem Path.joined_cons (is3d : Bool) (first : Polyline K) (rest : List (Polyline K)) :
    joined is3d (first :: rest) =
      ⟨first.points ++ (rest.map (·.points)).flatMap (·.tail), is3d⟩ := by
  have hfold : ∀ (rest : List (Polyline K)) (points : List (Point K)),
      rest.foldl (fun line s => line.append (s.portion .pillarsAndAdj)) ⟨points, is3d⟩ =
        (⟨points ++ (rest.map (·.points)).flatMap (·.tail), is3d⟩ : Polyline K) := by
    intro rest
    induction rest with
    | nil => simp
    | cons s rest ih =>
      intro points
      rw [List.foldl_cons, List.map_cons, List.flatMap_cons, ← List.append_assoc, ← List.drop_one]
      exact ih _
  exact hfold rest _

/-- **The shapes of a path** are those of the edges that the graph finds for it. -/
theorem Path.shapes_eq_of_found (hnodes : p.nodes = s :: vs.map (·.adj))
    (hfound : List.Forall₂ (fun e v => Network.edge g e (some v.adj) = .ok v) p.edges vs) :
    p.shapes g = .ok (vs.map (·.shape)) := by
  have hall : ∀ (es : List EdgeId) (vs : List (EdgeView K)),
      List.Forall₂ (fun e v => Network.edge g e (some v.adj) = .ok v) es vs →
        (es.zip (vs.map (·.adj))).mapM (fun x =>
          (Network.edge g x.1 (some x.2)).map (·.shape)) = Except.ok (vs.map (·.shape)) := by
    intro es vs hfound
    induction hfound with
    | nil => rfl
    | @cons e v es vs hv _ ih =>
      rw [List.map_cons, List.zip_cons_cons, List.mapM_cons, ih]
      dsimp only
      rw [hv]
      rfl
  unfold shapes steps
  rw [hnodes, List.drop_one, List.tail_cons]
  exact hall p.edges vs hfound

namespace Path.Traces

/-- The shapes of a traced path are those of its edges. -/
theorem shapes_eq (h : p.Traces g s t vs) : p.shapes g = .ok (vs.map (·.shape)) :=
  Path.shapes_eq_of_found h.nodes h.found

/-- Each shape begins where the one before it ends. -/
theorem joined_points (h : p.Traces g s t vs) :
    Joined List.head? List.getLast? (Network.coordinate? g s)
      ((vs.map (·.shape)).map (·.points)) (Network.coordinate? g t) := by
  rw [List.map_map, Joined.map]
  exact h.joined.through _ fun v hv => (h.spans v hv).ends

/-- The geometry of a traced path that begins somewhere. -/
theorem geometry_eq (h : p.Traces g s t vs) {a : Point K} (ha : Network.coordinate? g s = some a) :
    p.geometry g = .ok ⟨threaded a ((vs.map (·.shape)).map (·.points)), (Network.base g).is3d⟩ := by
  unfold geometry
  -- Without an edge the line is the point of the node; otherwise the first edge begins there.
  cases vs with
  | nil =>
    have hedges : p.edges = [] := List.forall₂_nil_right_iff.1 h.found
    simp only [hedges, List.isEmpty_nil, ↓reduceIte, h.nodes, List.head?_cons, ha]
    rfl
  | cons v vs =>
    have hedges : p.edges.isEmpty = false := by
      have hlength := h.found.length_eq
      cases hcase : p.edges with
      | nil => simp [hcase] at hlength
      | cons => rfl
    have hnodes : p.nodes.isEmpty = false := by rw [h.nodes]; rfl
    have hfirst := h.joined_points
    rw [ha] at hfirst
    simp only [hedges, hnodes, h.shapes_eq, Bool.false_eq_true, ↓reduceIte]
    rw [List.map_cons, List.map_cons, threaded_cons hfirst.1, ← joined_cons]
    rfl

/-- **A traced path has a line along it**, if it begins somewhere. -/
theorem lineAlong (h : p.Traces g s t vs) {a : Point K} (ha : Network.coordinate? g s = some a) :
    p.LineAlong g (vs.map (·.shape))
      ⟨threaded a ((vs.map (·.shape)).map (·.points)), (Network.base g).is3d⟩ := by
  have hjoined := h.joined_points
  rw [ha] at hjoined
  -- Each node of the path lies on the line.
  have hpasses : ∀ (i : Nat) n, p.nodes[i]? = some n → ∃ c, Network.coordinate? g n = some c ∧
      (threaded a ((vs.map (·.shape)).map (·.points)))[offset ((vs.map (·.shape)).map (·.points)) i]? =
        some c := by
    rw [h.nodes, List.map_map]
    refine getElem?_threaded h.joined (fun v hv => (h.spans v hv).ends.1)
      (fun v hv => (h.spans v hv).ends.2) ha fun v hv => ?_
    obtain ⟨c, hc, -⟩ := (h.spans v hv).adj
    exact ⟨c, hc⟩
  have hlast : p.nodes.getLast? = some t := h.nodes ▸ h.joined.getLast?_eq
  obtain ⟨i, hi⟩ := List.mem_iff_getElem?.1 (List.mem_of_getLast? hlast)
  obtain ⟨b, hb, -⟩ := hpasses i t hi
  rw [hb] at hjoined
  refine ⟨h.geometry_eq ha, h.shapes_eq, ?_, ⟨s, a, ?_, ha, rfl⟩,
    ⟨t, b, hlast, hb, getLast?_threaded hjoined⟩, ?_, hpasses, fun i shape hs => ?_⟩
  · rw [h.nodes, h.found.length_eq, List.length_cons, List.length_map]
  · rw [h.nodes]
    rfl
  · refine (length_threaded a _).trans ?_
    rw [offset, List.take_length, List.map_map, Nat.add_comm]
    rfl
  · refine take_drop_threaded hjoined (i := i) (l := shape.points) ?_
    rw [List.getElem?_map, hs]
    rfl

/-- **A traced path is continuous**, if it begins at a node of the graph. -/
theorem continuous (h : p.Traces g s t vs) {a : Point K} (ha : Network.coordinate? g s = some a) :
    p.Continuous g := ⟨_, _, h.lineAlong ha⟩

end Path.Traces

/-- **A line along shapes that are points** does not leave its first node. -/
theorem Path.LineAlong.same_place {shapes : List (Polyline K)} {line : Polyline K}
    (h : p.LineAlong g shapes line) (hpoints : ∀ shape ∈ shapes, shape.length = 1) :
    ∃ n m a, p.nodes.head? = some n ∧ p.nodes.getLast? = some m ∧
      Network.coordinate? g n = some a ∧ Network.coordinate? g m = some a := by
  obtain ⟨n, a, hn, ha, hfirst⟩ := h.first_eq
  obtain ⟨m, b, hm, hb, hlast⟩ := h.last_eq
  have hsum : (shapes.map (·.length - 1)).sum = 0 := List.sum_eq_zero fun k hk => by
    obtain ⟨shape, hshape, rfl⟩ := List.mem_map.1 hk
    rw [hpoints shape hshape, Nat.sub_self]
  have hlength : line.points.length = 1 := h.length_eq.trans (by rw [hsum])
  obtain ⟨c, hc⟩ := List.length_eq_one_iff.1 hlength
  have hfirst : line.points.head? = some a := hfirst
  have hlast : line.points.getLast? = some b := hlast
  rw [hc] at hfirst hlast
  obtain rfl : c = a := Option.some.inj hfirst
  obtain rfl : c = b := Option.some.inj hlast
  exact ⟨n, m, c, hn, hm, ha, hb⟩

/-! ## §3. Hops that a graph finds again. -/

/-- **A hop that the graph finds again** by the number and the node that it names, as an edge
between the same nodes that spans them. -/
def Hop.Spanned (g : G) (x : Hop) : Prop :=
  ∃ v, Network.edge g x.edge (some x.adj) = .ok v ∧ v.base = x.base ∧ v.adj = x.adj ∧ v.Spans g

/-- **Hops that are found again** are found as edges between the same nodes. -/
theorem Hop.exists_found {hops : List Hop} (hjoined : Joined (·.base) (·.adj) s hops t)
    (hall : ∀ x ∈ hops, x.Spanned g) :
    ∃ vs : List (EdgeView K), Joined (·.base) (·.adj) s vs t ∧
      vs.map (·.adj) = hops.map (·.adj) ∧
      List.Forall₂ (fun e v => Network.edge g e (some v.adj) = .ok v) (hops.map (·.edge)) vs ∧
      ∀ v ∈ vs, v.Spans g := by
  induction hops generalizing s with
  | nil => exact ⟨[], hjoined, rfl, .nil, fun v hv => by cases hv⟩
  | cons x hops ih =>
    obtain ⟨rfl, hjoined⟩ := hjoined
    obtain ⟨v, hv, hbase, hadj, hspans⟩ := hall x List.mem_cons_self
    obtain ⟨vs, hvs, hadjs, hfound, hall⟩ :=
      ih hjoined fun y hy => hall y (List.mem_cons_of_mem x hy)
    have hnext : Joined (·.base) (·.adj) v.adj vs t := by
      rw [hadj]
      exact hvs
    refine ⟨v :: vs, ⟨hbase, hnext⟩, ?_, .cons (hadj ▸ hv) hfound, fun u hu => ?_⟩
    · rw [List.map_cons, List.map_cons, hadj, hadjs]
    · obtain rfl | hu := List.mem_cons.1 hu
      · exact hspans
      · exact hall u hu

/-- **A path of hops that are found again is continuous**, if it begins at a node of the graph. -/
theorem Path.Hops.continuous {R : Hop → Prop} (h : p.Hops R s t)
    (hR : ∀ x, R x → x.Spanned g) {a : Point K} (ha : Network.coordinate? g s = some a) :
    p.Continuous g := by
  obtain ⟨hops, hjoined, hnodes, hedges, hall⟩ := h
  obtain ⟨vs, hvs, hadjs, hfound, hspans⟩ := Hop.exists_found hjoined fun x hx => hR x (hall x hx)
  have htraces : p.Traces g s t vs := ⟨hvs, by rw [hnodes, hadjs], hedges ▸ hfound, hspans⟩
  exact htraces.continuous ha

end RoadSplice

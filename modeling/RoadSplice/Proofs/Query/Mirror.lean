/-
  RoadSplice.Proofs.Query.Mirror — an edge and the same edge seen from its other end.

  A road is turned round by reading its record the other way.  A piece of a road is turned round by
  looking up the piece paired with it, which has a shape, a direction and a mark of its own.  In
  both cases the result is the mirror image of the view: the ends change places, the shape runs
  backwards, every property reads its other direction, and all else stays.  For pieces this needs
  marks that are set and taken back in pairs, as the calls of a graph do.
-/
import RoadSplice.Proofs.Query.Properties
import RoadSplice.Proofs.Query.Tracking
import RoadSplice.Proofs.Weighting.Speed

namespace RoadSplice

variable {K : Type}

/-! ## §1. Parts of a shape that runs backwards. -/

/-- The part of a shape that takes the place of a part when the shape is turned round. -/
def Portion.mirrored : Portion → Portion
  | all => all
  | towers => towers
  | baseAndPillars => pillarsAndAdj
  | pillarsAndAdj => baseAndPillars
  | pillars => pillars

namespace Polyline

/-- The two ends of a list change places when it is turned round. -/
theorem ends_of_reverse (points : List (Point K)) :
    ends points.reverse = (ends points).reverse := by
  unfold ends
  rw [List.head?_reverse, List.getLast?_reverse, List.length_reverse]
  cases hfirst : points.head? with
  | none =>
    -- A list without a first point is empty.
    rw [List.head?_eq_none_iff.1 hfirst]
    rfl
  | some a =>
    cases hlast : points.getLast? with
    | none => rfl
    | some b =>
      show (if points.length < 3 then points.reverse else [b, a]) =
        (if points.length < 3 then points else [a, b]).reverse
      split
      · rfl
      · rfl

/-- **A part of a shape that is turned round** is the mirrored part, turned round. -/
theorem portion_reverse (s : Polyline K) (part : Portion) :
    s.reverse.portion part = (s.portion part.mirrored).reverse := by
  unfold portion reverse Portion.mirrored
  -- The ends change places, and what is between them is turned round.
  cases part with
  | all => rfl
  | towers =>
    show (⟨ends s.points.reverse, s.is3d⟩ : Polyline K) = ⟨(ends s.points).reverse, s.is3d⟩
    rw [ends_of_reverse]
  | baseAndPillars =>
    show (⟨s.points.reverse.dropLast, s.is3d⟩ : Polyline K) = ⟨(s.points.drop 1).reverse, s.is3d⟩
    rw [List.dropLast_reverse, List.drop_one]
  | pillarsAndAdj =>
    show (⟨s.points.reverse.drop 1, s.is3d⟩ : Polyline K) = ⟨s.points.dropLast.reverse, s.is3d⟩
    rw [List.drop_one, List.tail_reverse]
  | pillars =>
    show (⟨s.points.reverse.dropLast.drop 1, s.is3d⟩ : Polyline K) =
      ⟨(s.points.dropLast.drop 1).reverse, s.is3d⟩
    rw [List.dropLast_reverse, List.drop_one, List.drop_one, List.tail_reverse,
      List.tail_dropLast]

end Polyline

/-! ## §2. Mirror images. -/

namespace EdgeView

/-- **The mirror image of a view.** -/
structure Mirror (v d : EdgeView K) : Prop where
  base : d.base = v.adj
  adj : d.adj = v.base
  reverse : d.reverse = !v.reverse
  road : d.road = v.road
  virtual : d.isVirtual = v.isVirtual
  distance : d.distance = v.distance
  name : d.name = v.name
  word : d.word = v.word
  unfavored : d.unfavored = v.unfavored
  shape : d.shape = v.shape.reverse

namespace Mirror

variable {v d : EdgeView K}

theorem direction (h : v.Mirror d) (opposite : Bool) :
    d.direction opposite = v.direction (!opposite) := by
  show (d.reverse != opposite) = (v.reverse != !opposite)
  rw [h.reverse]
  cases v.reverse <;> cases opposite <;> rfl

/-- **What is read in one direction** is read in the other one of the mirror image, whatever the
type of the property. -/
theorem reads (h : v.Mirror d) {α : Type} (read : Bool → Word → α) (opposite : Bool) :
    read (d.direction opposite) d.word = read (v.direction (!opposite)) v.word := by
  rw [h.direction, h.word]

theorem geometry (h : v.Mirror d) (part : Portion) :
    d.geometry part = (v.geometry part.mirrored).reverse := by
  show d.shape.portion part = (v.shape.portion part.mirrored).reverse
  rw [h.shape]
  exact v.shape.portion_reverse part

end Mirror

end EdgeView

variable [Scalar K]

/-- A road in its two directions. -/
theorem RoadGraph.mirror_reversed (g : RoadGraph K) (d : DirectedEdge) :
    (g.view d).Mirror (g.view d.reversed) where
  base := rfl
  adj := rfl
  reverse := rfl
  road := rfl
  virtual := rfl
  distance := rfl
  name := rfl
  word := rfl
  unfavored := rfl
  shape := by
    show g.fullGeometry d.edge (!d.reverse) = (g.fullGeometry d.edge d.reverse).reverse
    unfold fullGeometry
    cases g.roads[d.edge]? with
    | none => rfl
    | some r =>
      -- The shape is that of the record, turned round for one of the two directions.
      cases d.reverse with
      | false => rfl
      | true => exact (Polyline.reverse_reverse _).symm

omit [Scalar K] in
/-- A piece and the piece paired with it, both marked or neither. -/
theorem Piece.Opposite.mirror {p q : Piece K} (h : p.Opposite q) (hmark : q.unfavored = p.unfavored)
    (g : RoadGraph K) (i j : Nat) : (p.view g i).Mirror (q.view g j) where
  base := h.base
  adj := h.adj
  reverse := h.reverse
  road := h.road
  virtual := rfl
  distance := h.distance
  name := by
    show (g.roads[q.road]?.map (·.name)).getD "" = (g.roads[p.road]?.map (·.name)).getD ""
    rw [h.road]
  word := by
    show g.word q.road = g.word p.road
    rw [h.road]
  unfavored := hmark
  shape := h.shape

/-! ## §3. A graph that is used alone. -/

namespace QueryGraph

/-- **A query graph that is used alone** on its overlay: it has been opened on a built overlay, and
since then it has had calls of its own that change marks, and writes of properties. -/
inductive UsedAlone : QueryGraph K → Prop
  | ofBuild {g : RoadGraph K} {o : Overlay K} {snaps final : Array (Snap K)} :
      g.Built → Overlay.build g snaps = (.ok o, final) → UsedAlone (ofOverlay g o)
  | call {q} (c : MarkCall K) : UsedAlone q → UsedAlone (c.after q)
  | assign {q} {α : Type} (v : EdgeView K) (p : IntProperty) (encode : α → Except (Error K) Nat)
      (values : Assignment α) :
      UsedAlone q → UsedAlone (q.edit (RoadGraph.assign v p encode values)).2

variable {q : QueryGraph K} {v : EdgeView K}

/-- **Marks and list stay in step**, over whatever flag words. -/
theorem UsedAlone.inStep (h : q.UsedAlone) : ∃ g o, o.WellLinked ∧ InStep g o q := by
  -- The overlay is fresh when the graph is opened; calls and writes do not exchange it.
  have hfresh : ∃ g o, o.Fresh ∧ InStep g o q := by
    induction h with
    | @ofBuild g o snaps final _ hbuild =>
      have ho := Overlay.build_fresh hbuild
      exact ⟨g, o, ho, inStep_ofOverlay ho⟩
    | call c _ ih =>
      obtain ⟨g, o, ho, hstep⟩ := ih
      exact ⟨g, o, ho, hstep.after ho c⟩
    | assign v p encode values _ ih =>
      obtain ⟨g, o, ho, t, rfl, hnodup, hpaired⟩ := ih
      exact ⟨_, o, ho, t, rfl, hnodup, hpaired⟩
  obtain ⟨g, o, ho, hstep⟩ := hfresh
  exact ⟨g, o, ho.linked, hstep⟩

/-- **A piece is turned round** to its mirror image, and back. -/
theorem InStep.mirror_piece {g : RoadGraph K} {o : Overlay K} (ho : o.WellLinked)
    (h : InStep g o q) {i : Nat} (hi : q.pieceView i = some v) :
    v.Mirror (q.detach v) ∧ q.detach (q.detach v) = v := by
  obtain ⟨t, rfl, -, hpaired⟩ := h
  obtain ⟨p, hp, -⟩ := exists_piece_of_pieceView hi
  obtain ⟨-, p', hp', hback, hopposite⟩ := ho.pair i p hp
  have hdetach := detach_of_pieceView ho hp hi
  have htwice := detach_of_pieceView ho hp' hdetach
  -- Both views are those of their pieces, with the marks of the graph.
  have hv := hi.symm.trans (pieceView_eq (piece?_marking hp))
  have hd := hdetach.symm.trans (pieceView_eq (piece?_marking hp'))
  constructor
  · rw [Option.some.inj hd, Option.some.inj hv]
    have hmarked : t.contains p.pair = t.contains i := by
      rw [Bool.eq_iff_iff, List.contains_iff_mem, List.contains_iff_mem]
      exact hpaired.mem_iff ho hp
    have hturned : Piece.Opposite { p with unfavored := t.contains i }
        { p' with unfavored := t.contains p.pair } :=
      ⟨hopposite.base, hopposite.adj, hopposite.reverse, hopposite.shape, hopposite.distance,
        hopposite.road⟩
    exact hturned.mirror hmarked g i p.pair
  · rw [hback] at htwice
    exact Option.some.inj (htwice.symm.trans hi)

/-- **Whatever is shown** is turned round to its mirror image, and back. -/
theorem UsedAlone.mirror (h : q.UsedAlone) (hv : q.Shows v) :
    v.Mirror (q.detach v) ∧ q.detach (q.detach v) = v := by
  obtain ⟨d, rfl⟩ | ⟨i, hi⟩ := hv.views
  · constructor
    · exact q.base.mirror_reversed d
    · show q.base.view d.reversed.reversed = q.base.view d
      rw [d.reversed_reversed]
  · obtain ⟨g, o, ho, hstep⟩ := h.inStep
    exact hstep.mirror_piece ho hi

/-- **An edge seen from its other end is its mirror image.**  In every query graph that is used
alone, after any calls that mark pieces or take marks back and any writes of properties, an edge
that is shown, be it a road or a piece of one, and the same edge seen from its other end have their
ends exchanged and opposite directions, and agree in road, distance, name and mark.  Every property
reads its one direction in the one and its other direction in the other; weights and times by speed
are exchanged likewise; every part of the shape runs backwards, where the part without the last
point takes the place of that without the first.  Seen from its other end twice, an edge is
itself. -/
theorem detach_mirrors (h : q.UsedAlone) (hv : q.Shows v) :
    v.Mirror (q.detach v) ∧ q.detach (q.detach v) = v ∧
      (∀ opposite, (∀ p, (q.detach v).getInt p opposite = v.getInt p (!opposite)) ∧
        (∀ p, (q.detach v).getBool p opposite = v.getBool p (!opposite)) ∧
        (∀ p, (q.detach v).getDecimal p opposite = v.getDecimal p (!opposite)) ∧
        ∀ {α : Type} [Enumerated α] (p : EnumProperty α),
          (q.detach v).getEnum p opposite = v.getEnum p (!opposite)) ∧
      (∀ (w : SpeedWeighting K) opposite,
        w.edgeWeight (q.detach v) opposite = w.edgeWeight v (!opposite) ∧
          w.edgeMillis (q.detach v) opposite = w.edgeMillis v (!opposite)) ∧
      ∀ part, (q.detach v).geometry part = (v.geometry part.mirrored).reverse := by
  obtain ⟨hmirror, htwice⟩ := h.mirror hv
  refine ⟨hmirror, htwice, ?getters, ?weights, hmirror.geometry⟩
  case getters =>
    intro opposite
    exact ⟨fun p => hmirror.reads p.read opposite, fun p => hmirror.reads p.read opposite,
      fun p => hmirror.reads p.read opposite, fun p => hmirror.reads p.read opposite⟩
  case weights =>
    intro w opposite
    have hdirection := hmirror.direction opposite
    constructor
    · exact w.edgeWeight_congr hmirror.word hdirection hmirror.distance hmirror.unfavored
    · exact w.edgeMillis_congr hmirror.word hdirection hmirror.distance

/-- A piece that has been marked, after its road has been given a speed. -/
theorem detach_mirrors_cutRoad :
    ∃ o final, Overlay.build (Splicing.cutRoad 0) Splicing.cutSnaps = (.ok o, final) ∧
      let q := (MarkCall.edges [o.firstEdge]).after
        ((ofOverlay (Splicing.cutRoad 0) o).edit Splicing.speedWrite.perform).2
      q.UsedAlone ∧ ∃ v, q.Shows v ∧ v.isVirtual = true ∧ v.unfavored = true ∧
        v.Mirror (q.detach v) ∧ q.detach (q.detach v) = v := by
  obtain ⟨o, final, hbuild, hspliced⟩ := Splicing.build_cutRoad 0
  have ho := Overlay.build_fresh hbuild
  have hcount := (Splicing.nodeCount_levelChain 0 hspliced.laid).1
  obtain ⟨i, p, hindex, hp⟩ := exists_first_piece ho.linked hcount
  let written := ((ofOverlay (Splicing.cutRoad 0) o).edit Splicing.speedWrite.perform).2
  let q := (MarkCall.edges [o.firstEdge]).after written
  have hwritten : written.UsedAlone :=
    .assign Splicing.speedWrite.view Splicing.speedWrite.property.bits
      Splicing.speedWrite.property.encode Splicing.speedWrite.values
      (.ofBuild (Splicing.built_cutRoad 0) hbuild)
  have hused : q.UsedAlone := .call _ hwritten
  -- The write leaves the overlay, so the first piece is listed as on a graph just opened.
  have htracked : q.tracked = [i, p.pair] := tracked_after_edges (g := written.base) ho hindex hp
  obtain ⟨g, o', ho', hstep⟩ := hused.inStep
  have htrack := hstep.keepsTrack ho'
  have hlength : q.marked.length = 2 := by rw [htrack.listed, htracked]; rfl
  obtain ⟨v, hv⟩ := List.exists_mem_of_length_pos (l := q.marked) (by omega)
  obtain ⟨j, -, hj⟩ := mem_marked.1 hv
  have hshown : q.Shows v := .marked hv
  have hvirtual : v.isVirtual = true := by
    unfold EdgeView.isVirtual
    rw [piece_of_pieceView hj]
    rfl
  obtain ⟨hmirror, htwice, -⟩ := detach_mirrors hused hshown
  exact ⟨o, final, hbuild, hused, v, hshown, hvirtual, (htrack.exactly v hshown).2 hv, hmirror,
    htwice⟩

end QueryGraph

end RoadSplice

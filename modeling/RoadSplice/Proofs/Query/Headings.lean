/-
  RoadSplice.Proofs.Query.Headings — what a heading marks.

  At a virtual node a heading looks at two pieces: those that leave it, or the same two as they
  arrive.  It marks each that deviates, together with its other direction, and nothing else.  A
  piece deviates when the angle between the heading and its segment at the node is too great,
  whatever full turns lie between the numbers that are compared.
-/
import RoadSplice.Proofs.Geo.Angle
import RoadSplice.Proofs.Query.Lookup
import RoadSplice.Proofs.Query.MarkCalls

namespace RoadSplice

open Exact

/-! ## §1. Deviation. -/

section

variable {K : Type}

/-- **The segment of a shape at the node of a heading**: the last one on arrival, the first one on
leaving. -/
def Polyline.EndSegment (s : Polyline K) (incoming : Bool) (a b : Point K) : Prop :=
  if incoming then ∃ before, s.points = before ++ [a, b]
  else ∃ behind, s.points = a :: b :: behind

/-- The segments of a shape that ends with two given points. -/
theorem segments_concat {s : Polyline K} {before : List (Point K)} {a b : Point K}
    (h : s.points = before ++ [a, b]) :
    s.segments = before.zip ((before ++ [a]).drop 1) ++ [(a, b)] := by
  have hdrop : (before ++ [a, b]).drop 1 = (before ++ [a]).drop 1 ++ [b] := by
    rw [List.append_cons, List.drop_append_of_le_length (by simp)]
  unfold Polyline.segments
  rw [h, hdrop, List.zip_append (by simp)]
  rfl

theorem segments_getLast? {s : Polyline K} {a b : Point K} :
    s.segments.getLast? = some (a, b) ↔ ∃ before, s.points = before ++ [a, b] := by
  constructor
  · intro h
    obtain hnil | ⟨init, y, hy⟩ := List.eq_nil_or_concat s.points
    · simp [Polyline.segments, hnil] at h
    obtain rfl | ⟨before, x, rfl⟩ := List.eq_nil_or_concat init
    · simp [Polyline.segments, hy] at h
    · have hpoints : s.points = before ++ [x, y] := by simpa using hy
      rw [segments_concat hpoints, List.getLast?_concat] at h
      cases h
      exact ⟨before, hpoints⟩
  · rintro ⟨before, h⟩
    rw [segments_concat h, List.getLast?_concat]

theorem segments_head? {s : Polyline K} {a b : Point K} :
    s.segments.head? = some (a, b) ↔ ∃ behind, s.points = a :: b :: behind := by
  unfold Polyline.segments
  cases s.points with
  | nil => simp
  | cons p ps => cases ps <;> simp

/-- The segment whose direction counts is the one at the node. -/
theorem travelOrientation?_eq_some [Scalar K] {s : Polyline K} {incoming : Bool} {x : K} :
    QueryGraph.travelOrientation? s incoming = some x ↔
      ∃ a b, s.EndSegment incoming a b ∧ Geo.orientation a.lat a.lon b.lat b.lon = x := by
  unfold QueryGraph.travelOrientation? Polyline.EndSegment
  cases incoming with
  | false => simp [← segments_head?]
  | true => simp [← segments_getLast?]

end

/-- **A shape deviates from a heading** of so many degrees: the angle between the heading and the
segment at the node is greater than the limit. -/
structure Deviates (h : ℝ) (incoming : Bool) (s : Polyline Exact) : Prop where
  beyond : ∃ a b o d, s.EndSegment incoming a b ∧
    Geo.orientation a.lat a.lon b.lat b.lon = real o ∧
    Geo.AngleBetween o (Real.pi / 2 - h * Real.pi / 180) d ∧ 1.74 < d

theorem deviationLimit_eq : (QueryGraph.deviationLimit : Exact) = real 1.74 := by
  show real ((174 : ℕ) / 10 ^ 2) = real 1.74
  norm_num

/-- A direction that is no number is not beyond the limit. -/
theorem not_limit_lt_of_nan (c : ℝ) :
    ¬ QueryGraph.deviationLimit < Scalar.abs (Geo.align (real c) nan - real c) := by
  have halign : Geo.align (real c) nan = nan := by
    unfold Geo.align
    simp
  have habs : Scalar.abs (nan - real c) = nan := by
    show Scalar.abs (nan + -real c) = nan
    unfold Scalar.abs
    simp
  rw [halign, habs]
  exact not_lt_nan _

/-- **What is found to deviate does deviate**, and nothing else. -/
theorem deviates_iff {h : ℝ} (h0 : 0 ≤ h) (h360 : h ≤ 360) {incoming : Bool}
    {s : Polyline Exact} :
    QueryGraph.deviates (Geo.ofAzimuth (real h)) incoming s = true ↔ Deviates h incoming s := by
  obtain ⟨c, hc, -, hdeviation⟩ := Geo.exists_deviation h0 h360
  have htravel : ∀ {a b}, s.EndSegment incoming a b →
      QueryGraph.travelOrientation? s incoming = some (Geo.orientation a.lat a.lon b.lat b.lon) :=
    fun hend => travelOrientation?_eq_some.2 ⟨_, _, hend, rfl⟩
  unfold QueryGraph.deviates
  rw [hc]
  constructor
  · intro hfound
    cases hsome : QueryGraph.travelOrientation? s incoming with
    | none =>
      rw [hsome] at hfound
      cases hfound
    | some x =>
      rw [hsome] at hfound
      obtain ⟨a, b, hend, rfl⟩ := travelOrientation?_eq_some.1 hsome
      have hfound := of_decide_eq_true hfound
      obtain hnan | ⟨o, ho, hle⟩ := Geo.orientation_cases a.lat a.lon b.lat b.lon
      · rw [hnan] at hfound
        exact absurd hfound (not_limit_lt_of_nan c)
      · obtain ⟨d, hd, hangle⟩ := hdeviation o hle
        rw [ho, hd, deviationLimit_eq, real_lt_real] at hfound
        exact ⟨a, b, o, d, hend, ho, hangle, hfound⟩
  · rintro ⟨a, b, o, d, hend, ho, hangle, hlimit⟩
    have hle : |o| ≤ Real.pi := by
      obtain hnan | ⟨o', ho', hle⟩ := Geo.orientation_cases a.lat a.lon b.lat b.lon
      · rw [ho] at hnan
        cases hnan
      · rw [ho] at ho'
        cases ho'
        exact hle
    -- There is only one angle, so the one that is measured is the one that is given.
    obtain ⟨d', hd', hangle'⟩ := hdeviation o hle
    obtain rfl := hangle.unique hangle'
    rw [htravel hend, ho]
    apply decide_eq_true
    rw [hd', deviationLimit_eq]
    exact hlimit

/-! ## §2. The pieces that a heading looks at. -/

namespace QueryGraph

section

variable {K : Type}

/-- **A piece that a heading looks at**: one that the node offers, or, on arrival, the other
direction of such a piece. -/
def Candidate (q : QueryGraph K) (n : NodeId) (incoming : Bool) (i : Nat) (p : Piece K) : Prop :=
  q.overlay.piece? i = some p ∧ (if incoming then p.pair else i) ∈ q.overlay.leaving n

/-- Some slots hold a piece at a place. -/
def InSlots (o : Overlay K) (n : NodeId) (slots : List Slot) (i : Nat) (p : Piece K) : Prop :=
  ∃ slot ∈ slots, o.slotOf? n slot = some i ∧ o.piece? i = some p

/-- A piece whose other direction lies in one slot lies in the other. -/
theorem place_eq_of_pair {o : Overlay K} (h : o.WellLinked) {i a a' : Nat} {p r : Piece K}
    (hp : o.piece? i = some p) (hr : o.piece? a' = some r) (hback : r.pair = a)
    (hpair : p.pair = a') : i = a := by
  obtain ⟨-, p', hp', hinvolution, -⟩ := h.pair i p hp
  rw [hpair, hr] at hp'
  cases hp'
  exact hinvolution.symm.trans hback

/-- The pieces that a heading looks at are those of its slots. -/
theorem inSlots_iff {q : QueryGraph K} (hlinked : q.overlay.WellLinked) {n : NodeId}
    (hn : q.isVirtualNode n = true) {incoming : Bool} {i : Nat} {p : Piece K} :
    InSlots q.overlay n (headingSlots incoming) i p ↔ q.Candidate n incoming i p := by
  obtain ⟨m, hm, rfl⟩ := Overlay.exists_of_isVirtualNode hn
  obtain ⟨hbefore, hbehind⟩ := hlinked.beside m hm
  obtain ⟨a, a', r, r', ha, ha', hr, hr', -, -, hpair, hback⟩ := hbefore
  obtain ⟨b, b', s, s', hb, hb', hs, hs', -, -, hpair', hback'⟩ := hbehind
  have hleaving : q.overlay.leaving (q.overlay.firstNode + m) = [a', b'] := by
    unfold Overlay.leaving
    rw [ha', hb']
    rfl
  unfold InSlots Candidate headingSlots
  rw [hleaving]
  -- One way the heading looks at the leaving pieces, the other way at those paired with them.
  cases incoming with
  | false =>
    simp only [Bool.false_eq_true, ↓reduceIte, List.mem_pair]
    constructor
    · rintro ⟨slot, rfl | rfl, hslot, hp⟩
      · exact ⟨hp, .inl (Option.some.inj (hslot.symm.trans ha'))⟩
      · exact ⟨hp, .inr (Option.some.inj (hslot.symm.trans hb'))⟩
    · rintro ⟨hp, rfl | rfl⟩
      · exact ⟨.snapToBase, .inl rfl, ha', hp⟩
      · exact ⟨.snapToAdj, .inr rfl, hb', hp⟩
  | true =>
    simp only [↓reduceIte, List.mem_pair]
    constructor
    · rintro ⟨slot, rfl | rfl, hslot, hp⟩
      · rw [ha] at hslot
        cases hslot
        rw [hr] at hp
        cases hp
        exact ⟨hr, .inl hpair⟩
      · rw [hb] at hslot
        cases hslot
        rw [hs] at hp
        cases hp
        exact ⟨hs, .inr hpair'⟩
    · rintro ⟨hp, hpair | hpair⟩
      · obtain rfl := place_eq_of_pair hlinked hp hr' hback hpair
        exact ⟨.baseToSnap, .inl rfl, ha, hp⟩
      · obtain rfl := place_eq_of_pair hlinked hp hs' hback' hpair
        exact ⟨.adjToSnap, .inr rfl, hb, hp⟩

/-! ## §3. Slot by slot. -/

variable {g : RoadGraph K} {o : Overlay K} {m : Nat → Bool} {t : List Nat}

/-- The marks that the pieces of a graph bear. -/
def marks (q : QueryGraph K) (i : Nat) : Bool := ((q.overlay.piece? i).map (·.unfavored)).getD false

/-- Any graph is one with the marks that its pieces bear. -/
theorem eq_marking (q : QueryGraph K) : q = marking q.base q.overlay q.marks q.tracked := by
  have hpieces : q.overlay.pieces.mapIdx (fun i p => { p with unfavored := q.marks i }) =
      q.overlay.pieces := by
    refine Array.ext_getElem? fun i => ?_
    rw [Array.getElem?_mapIdx]
    unfold marks Overlay.piece?
    cases q.overlay.pieces[i]? <;> rfl
  unfold marking Overlay.withMarks
  rw [hpieces]

variable [Scalar K] {n : NodeId} {favored : K} {incoming : Bool}

/-- A piece that is found to deviate in one of some slots. -/
def FoundIn (o : Overlay K) (n : NodeId) (favored : K) (incoming : Bool) (slots : List Slot)
    (i : Nat) (p : Piece K) : Prop :=
  InSlots o n slots i p ∧ deviates favored incoming p.shape = true

/-- With one slot more, the piece there may be found as well. -/
theorem foundIn_cons {slot : Slot} {i : Nat} {p : Piece K} (hi : o.slotOf? n slot = some i)
    (hp : o.piece? i = some p) (slots : List Slot) (j : Nat) (r : Piece K) :
    FoundIn o n favored incoming (slot :: slots) j r ↔
      (j = i ∧ r = p ∧ deviates favored incoming p.shape = true) ∨
        FoundIn o n favored incoming slots j r := by
  unfold FoundIn InSlots
  constructor
  · rintro ⟨⟨slot', hmem, hj, hr⟩, hdeviates⟩
    obtain rfl | hmem := List.mem_cons.1 hmem
    · rw [hi] at hj
      cases hj
      rw [hp] at hr
      cases hr
      exact .inl ⟨rfl, rfl, hdeviates⟩
    · exact .inr ⟨⟨slot', hmem, hj, hr⟩, hdeviates⟩
  · rintro (⟨rfl, rfl, hdeviates⟩ | ⟨⟨slot', hmem, hj, hr⟩, hdeviates⟩)
    · exact ⟨⟨slot, by simp, hi, hp⟩, hdeviates⟩
    · exact ⟨⟨slot', by simp [hmem], hj, hr⟩, hdeviates⟩

variable (favored incoming)

/-- **What a heading does at one slot.** -/
theorem enforceSlot_marking {slot : Slot} {i : Nat} {p : Piece K}
    (hi : o.slotOf? n slot = some i) (hp : o.piece? i = some p) :
    ∃ m' t', enforceSlot n favored incoming (marking g o m t) slot =
        .ok (marking g o m' t', deviates favored incoming p.shape) ∧
      ∀ k, m' k = true ↔
        m k = true ∨ deviates favored incoming p.shape = true ∧ (k = i ∨ k = p.pair) := by
  have hslot : (marking g o m t).overlay.slotOf? n slot = some i := hi
  have hrun : enforceSlot n favored incoming (marking g o m t) slot =
      if deviates favored incoming p.shape then .ok ((marking g o m t).mark i, true)
      else .ok (marking g o m t, false) := by
    unfold enforceSlot
    simp only [hslot, piece?_marking hp]
    rfl
  cases hdeviates : deviates favored incoming p.shape with
  | false =>
    refine ⟨m, t, ?_, fun k => by simp⟩
    rw [hrun, hdeviates]
    rfl
  | true =>
    refine ⟨fun k => m k || [i, p.pair].contains k, [i, p.pair].foldl track t, ?_,
      fun k => by simp⟩
    rw [hrun, hdeviates, if_pos rfl, mark_marking hp, foldl_markOne_marking]

/-- **What a heading does at some slots**, one after the other. -/
theorem enforceSlots_marking (slots : List Slot)
    (hslots : ∀ slot ∈ slots, ∃ i p, o.slotOf? n slot = some i ∧ o.piece? i = some p)
    (enforced : Bool) (m : Nat → Bool) (t : List Nat) :
    ∃ m' t' enforced',
      slots.foldlM (fun (q, enforced) slot => do
          let (q, found) ← enforceSlot n favored incoming q slot
          return (q, enforced || found)) (marking g o m t, enforced) =
        (.ok (marking g o m' t', enforced') : Except (Error K) _) ∧
      (enforced' = true ↔ enforced = true ∨ ∃ i p, FoundIn o n favored incoming slots i p) ∧
      ∀ k, m' k = true ↔ m k = true ∨
        ∃ i p, FoundIn o n favored incoming slots i p ∧ (k = i ∨ k = p.pair) := by
  -- Induction along the slots, with the marks and the answer that there are so far.
  induction slots generalizing enforced m t with
  | nil =>
    refine ⟨m, t, enforced, rfl, ?_, fun k => ?_⟩ <;> simp [FoundIn, InSlots]
  | cons slot slots ih =>
    obtain ⟨i, p, hi, hp⟩ := hslots slot (by simp)
    obtain ⟨m₁, t₁, hstep, hm₁⟩ := enforceSlot_marking (g := g) (m := m) (t := t)
      favored incoming hi hp
    obtain ⟨m₂, t₂, enforced₂, hrest, henforced₂, hm₂⟩ :=
      ih (fun s hs => hslots s (by simp [hs])) (enforced || deviates favored incoming p.shape) m₁ t₁
    refine ⟨m₂, t₂, enforced₂, ?_, ?_, fun k => ?_⟩
    · simp only [List.foldlM_cons, hstep]
      exact hrest
    · rw [henforced₂, Bool.or_eq_true, or_assoc]
      simp only [foundIn_cons hi hp, exists_or, exists_and_left, exists_eq_left]
    · rw [hm₂, hm₁, or_assoc]
      simp only [foundIn_cons hi hp, or_and_right, exists_or, and_assoc, exists_and_left,
        exists_eq_left]

end

/-! ## §4. Headings. -/

/-- **What a heading does at a virtual node**: it marks the pieces that deviate, each with its other
direction. -/
theorem enforceHeading_marking {q : QueryGraph Exact} (hq : q.Opened) {n : NodeId}
    (hn : q.isVirtualNode n = true) {h : ℝ} (h0 : 0 ≤ h) (h360 : h ≤ 360) (incoming : Bool) :
    ∃ m t enforced,
      q.enforceHeading n (real h) incoming = .ok (marking q.base q.overlay m t, enforced) ∧
      (enforced = true ↔ ∃ i p, q.Candidate n incoming i p ∧ Deviates h incoming p.shape) ∧
      ∀ k, m k = true ↔ q.marks k = true ∨
        ∃ i c, q.Candidate n incoming i c ∧ Deviates h incoming c.shape ∧ (k = i ∨ k = c.pair) := by
  have hlinked := hq.wellLinked
  have hfound : ∀ i p, FoundIn q.overlay n (Geo.ofAzimuth (real h)) incoming
      (headingSlots incoming) i p ↔ q.Candidate n incoming i p ∧ Deviates h incoming p.shape := by
    intro i p
    unfold FoundIn
    rw [inSlots_iff hlinked hn, deviates_iff h0 h360]
  obtain ⟨m, t, enforced, hrun, henforced, hmarks⟩ := enforceSlots_marking (g := q.base)
    (Geo.ofAzimuth (real h)) incoming (headingSlots incoming)
    (fun slot _ => Marking.exists_piece_of_slot hlinked hn slot) false q.marks q.tracked
  refine ⟨m, t, enforced, ?_, ?_, fun k => ?_⟩
  · -- No check stops the call: the node is there and virtual, and the azimuth within its bounds.
    rw [← eq_marking] at hrun
    have hnode : q.checkNode n = .ok () := by
      obtain ⟨k, hk, rfl⟩ := Overlay.exists_of_isVirtualNode hn
      unfold checkNode nodeCount
      rw [← hq.sound.firstNode_eq, if_neg (Nat.not_le.2 (Nat.add_lt_add_left hk _))]
    have hwithin : Scalar.within 0 360 (real h) = true := by
      have hturn : (360 : Exact) = real 360 := ofNat_eq 360
      simp [Scalar.within, hturn, h0, h360]
    unfold enforceHeading
    rw [hnode, isNaN_real, hn, hwithin]
    exact hrun
  · rw [henforced]
    simp [hfound]
  · rw [hmarks]
    simp only [hfound, and_assoc]

/-- **Headings are enforced exactly.**  For an azimuth between 0 and 360 degrees, the orientation
that it is turned into lies within half a turn of the east, and the deviation of any orientation
that is measured from it is the angle between the two directions.  At a virtual node of a graph in
use the call succeeds; it answers whether one of the two pieces deviates by more than the limit; it
changes nothing but marks; and a piece bears a mark afterwards exactly when it did before, or when
it is such a piece or the other direction of one. -/
theorem heading_enforced_exactly {q : QueryGraph Exact} (hq : q.Opened) {n : NodeId}
    (hn : q.isVirtualNode n = true) {h : ℝ} (h0 : 0 ≤ h) (h360 : h ≤ 360) (incoming : Bool) :
    (∃ c : ℝ, Geo.ofAzimuth (real h) = real c ∧ |c| ≤ Real.pi ∧ ∀ o : ℝ, |o| ≤ Real.pi →
      ∃ d, Scalar.abs (Geo.align (real c) (real o) - real c) = real d ∧
        Geo.AngleBetween o (Real.pi / 2 - h * Real.pi / 180) d) ∧
    ∃ m q' enforced, q.enforceHeading n (real h) incoming = .ok (q', enforced) ∧
      q'.base = q.base ∧ q'.overlay = q.overlay.withMarks m ∧
      (enforced = true ↔ ∃ i p, q.Candidate n incoming i p ∧ Deviates h incoming p.shape) ∧
      ∀ k p, q.overlay.piece? k = some p → (m k = true ↔ p.unfavored = true ∨
        ∃ i c, q.Candidate n incoming i c ∧ Deviates h incoming c.shape ∧
          (k = i ∨ k = c.pair)) := by
  obtain ⟨m, t, enforced, hrun, henforced, hmarks⟩ :=
    enforceHeading_marking hq hn h0 h360 incoming
  refine ⟨Geo.exists_deviation h0 h360, m, marking q.base q.overlay m t, enforced, hrun, rfl, rfl,
    henforced, fun k p hp => ?_⟩
  have hmark : q.marks k = p.unfavored := by
    unfold marks
    rw [hp]
    rfl
  rw [hmarks, hmark]

/-! ## §5. A heading to the east. -/

open Splicing

/-- Along the equator, the way to a smaller longitude leads to the west. -/
theorem orientation_west {x y : ℝ} (h : y < x) :
    Geo.orientation (onParallel 0 x).lat (onParallel 0 x).lon (onParallel 0 y).lat
      (onParallel 0 y).lon = real Real.pi := by
  have hwest : Complex.arg ⟨y - x, 0⟩ = Real.pi :=
    Complex.arg_eq_pi_iff.2 ⟨by simpa using h, rfl⟩
  show Scalar.atan2 (real 0 - real 0) ((real y - real x) * Geo.shrink (real 0) (real 0)) = _
  rw [shrink_real]
  simp only [real_sub, real_mul, add_zero, zero_div, zero_mul, Real.cos_zero, mul_one, sub_zero]
  exact congrArg real hwest

/-- A shape that leads to the west deviates from a heading to the east. -/
theorem deviates_west {s : Polyline Exact} {x y : ℝ} (h : y < x) (behind : List (Point Exact))
    (hs : s.points = onParallel 0 x :: onParallel 0 y :: behind) : Deviates 90 false s := by
  have hangle : Real.pi - (Real.pi / 2 - 90 * Real.pi / 180) + 2 * Real.pi * ((0 : ℤ) : ℝ) =
      Real.pi := by
    push_cast
    ring
  have hle : |Real.pi - (Real.pi / 2 - 90 * Real.pi / 180) + 2 * Real.pi * ((0 : ℤ) : ℝ)| ≤
      Real.pi := by
    rw [hangle, abs_of_pos Real.pi_pos]
  have hleast := Geo.angleBetween_of_le 0 hle
  rw [hangle, abs_of_pos Real.pi_pos] at hleast
  refine ⟨_, _, Real.pi, Real.pi, ⟨behind, hs⟩, orientation_west h, hleast, ?_⟩
  calc (1.74 : ℝ) < 2 := by norm_num
    _ ≤ Real.pi := Real.two_le_pi

/-- **Back to the west** from the first fix of a road to the east: the heading looks at this piece,
and it deviates from a heading to the east. -/
theorem exists_candidate_west {g : RoadGraph Exact} {o : Overlay Exact} {cs : List (Chain Exact)}
    {c : Chain Exact} (h : o.Laid cs) (hc : c ∈ cs) {part : Part Exact}
    (hpart : c.parts[0]? = some part) {x y : ℝ} (hlt : x < y)
    (hpoints : part.shape.points = [onParallel 0 x, onParallel 0 y]) :
    ∃ i p, (ofOverlay g o).Candidate (c.node o.firstNode 1) false i p ∧
      Deviates 90 false p.shape := by
  have hpos := List.length_pos_iff.2 (h.points_ne c hc)
  have hleaving := h.leaving_virtual hc hpos
  refine ⟨_, _, ⟨h.piece?_place hc hpart true, ?_⟩,
    deviates_west hlt [] (congrArg List.reverse hpoints)⟩
  show c.place 0 true ∈ o.leaving _
  rw [show c.node o.firstNode 1 = c.node o.firstNode (0 + 1) from rfl, hleaving]
  simp

/-- **At the first fix** of the road, a heading to the east speaks against the piece that leads
back to the west. -/
theorem heading_enforced_exactly_cutRoad :
    ∃ o final, Overlay.build (cutRoad 0) cutSnaps = (.ok o, final) ∧
      let q := ofOverlay (cutRoad 0) o
      (q.Opened ∧ q.isVirtualNode o.firstNode = true ∧ (0 : ℝ) ≤ 90 ∧ (90 : ℝ) ≤ 360) ∧
        ∃ q' i p, q.enforceHeading o.firstNode (real 90) false = .ok (q', true) ∧
          q.Candidate o.firstNode false i p ∧
          (q'.overlay.piece? i).map (·.unfavored) = some true := by
  obtain ⟨o, final, hbuild, hspliced⟩ := build_cutRoad 0
  have hopened : (ofOverlay (cutRoad 0) o).Opened := .ofBuild (built_cutRoad 0) hbuild
  have hmem := List.mem_singleton_self (levelChain 0 (atInner 0) (between 0))
  have hpos := List.length_pos_iff.2 (hspliced.laid.points_ne _ hmem)
  have hnode : (levelChain 0 (atInner 0) (between 0)).node o.firstNode 1 = o.firstNode :=
    Chain.node_virtual _ _ hpos
  have hvirtual : o.isVirtualNode o.firstNode = true :=
    hnode ▸ hspliced.laid.isVirtualNode_virtual hmem hpos
  obtain ⟨i, p, hcandidate, hdeviates⟩ := exists_candidate_west (g := cutRoad 0) hspliced.laid hmem
    (chainOf_first_part _ _ _ rfl (Exact.coincides_onParallel 0 (by norm_num)) _) one_pos rfl
  rw [hnode] at hcandidate
  have h360 : (90 : ℝ) ≤ 360 := by norm_num
  obtain ⟨-, m, q', enforced, hrun, -, hoverlay, hanswer, hmarks⟩ :=
    heading_enforced_exactly hopened hvirtual (by norm_num : (0 : ℝ) ≤ 90) h360 false
  obtain rfl := hanswer.2 ⟨_, _, hcandidate, hdeviates⟩
  refine ⟨o, final, hbuild, ⟨hopened, hvirtual, by norm_num, h360⟩, q', _, _, hrun, hcandidate, ?_⟩
  have hpiece : o.piece? i = some p := hcandidate.1
  have hmark := (hmarks _ _ hpiece).2 (.inr ⟨_, _, hcandidate, hdeviates, .inl rfl⟩)
  rw [hoverlay, Overlay.piece?_withMarks]
  show ((o.piece? _).map _).map _ = _
  rw [hpiece]
  exact congrArg some hmark

end QueryGraph

end RoadSplice

/-
  RoadSplice.Proofs.Query.Properties — properties of roads and of their pieces are one store.

  Whatever edge a query graph shows, be it a road, a piece of one or either of them seen from its
  other end, reads the word of the road behind it.  Writes go to that word as well.  So it does not
  matter through which view a property is written and through which one it is read: only the road,
  the property and the direction count.
-/
import RoadSplice.Proofs.Graph.Writes
import RoadSplice.Proofs.Overlay.OneRoad
import RoadSplice.Proofs.Query.Shown

namespace RoadSplice

open FlagLayout

variable {K : Type} [Scalar K]

/-! ## §1. Reading through a view. -/

/-- Reading a property of any type through a view. -/
def EdgeView.get (v : EdgeView K) (p : Property K) (opposite : Bool) : p.Value :=
  p.read (v.direction opposite) v.word

/-- The getters of the four types are reads. -/
theorem EdgeView.get_eq (v : EdgeView K) (opposite : Bool) :
    (∀ p, v.get (.int p) opposite = v.getInt p opposite) ∧
      (∀ p, v.get (.bool p) opposite = v.getBool p opposite) ∧
      (∀ p, v.get (.decimal p) opposite = v.getDecimal p opposite) ∧
      ∀ p, v.get (.roadClass p) opposite = v.getEnum p opposite :=
  ⟨fun _ => rfl, fun _ => rfl, fun _ => rfl, fun _ => rfl⟩

/-- **A view is up to date**: it carries the word that its road has. -/
def QueryGraph.UpToDate (q : QueryGraph K) (v : EdgeView K) : Prop := v.word = q.base.word v.road

/-- **Every view that is shown** is up to date. -/
theorem QueryGraph.Shows.upToDate {q : QueryGraph K} {v : EdgeView K} (h : q.Shows v) :
    q.UpToDate v := by
  obtain ⟨d, rfl⟩ | ⟨i, hi⟩ := h.views
  · rfl
  · obtain ⟨p, -, rfl⟩ := Option.map_eq_some_iff.1 hi
    rfl

/-! ## §2. Exact decimals. -/

namespace Exact

/-- **In exact arithmetic** a decimal that is accepted fits: the greatest number of steps is not
rounded before the comparison. -/
theorem keeps_decimal (p : DecimalProperty Exact) (x : Exact) :
    (Property.decimal p).Keeps x := by
  intro n hn
  unfold DecimalProperty.toRaw at hn
  extract_lets raw at hn
  split at hn
  · cases hn
  rename_i hraw
  obtain rfl := Except.ok.inj hn
  simp only [Bool.or_eq_true, not_or, Bool.not_eq_true', Bool.not_eq_false,
    decide_eq_true_eq] at hraw
  obtain ⟨⟨hfinite, -⟩, hmax⟩ := hraw
  obtain ⟨y, hy⟩ := (isFinite_iff raw).1 hfinite
  rw [hy] at hmax ⊢
  have hle : y ≤ p.int.maxValue := by simpa using hmax
  exact (Nat.min_le_left _ _).trans (Nat.floor_le_of_le hle)

/-- Whole numbers are rounded to themselves. -/
theorem round_whole (n : Nat) : Scalar.round (real n) = real n := by
  show real (roundAway n) = real n
  have hpos : ¬ ((n : ℝ) < 0) := not_lt.2 (Nat.cast_nonneg n)
  rw [roundAway, if_neg hpos, round_natCast]
  simp

/-- **A whole number of steps** is stored as that number. -/
theorem toRaw_steps {p : DecimalProperty Exact} {f : ℝ} (hfactor : p.factor = real f) (hf : f ≠ 0)
    {n : Nat} (hn : n ≤ p.int.maxValue) : p.toRaw (real (n * f)) = .ok n := by
  have hsteps : Scalar.round (real (n * f) / p.factor) = real n := by
    rw [hfactor, real_div _ hf, mul_div_cancel_right₀ _ hf, round_whole]
  have hcount : Scalar.count (real n) = n := by
    show min ⌊(n : ℝ)⌋₊ greatestCount = n
    rw [Nat.floor_natCast]
    exact Nat.min_eq_left (hn.trans (Nat.le_of_lt_succ (p.int.mask.isLt)))
  unfold DecimalProperty.toRaw
  rw [hsteps]
  simp [hn, hcount]

end Exact

/-! ## §3. A road that is cut, with a speed and a lock. -/

namespace Splicing

/-- A speed for each direction, in steps of two. -/
noncomputable def speedProperty : Property Exact := .decimal ⟨⟨"speed", 8, 0, some 8⟩, .real (2 : ℕ)⟩

/-- A yes or no for both directions together. -/
def closedProperty : Property Exact := .bool ⟨⟨"closed", 1, 16, none⟩⟩

theorem registered_speed_closed : Registered [speedProperty, closedProperty] ⟨17⟩ := by
  have hspeed : empty.add "speed" (.decimal 8 (.real (2 : ℕ))) true = .ok (speedProperty, ⟨16⟩) := rfl
  have hclosed : FlagLayout.add ⟨16⟩ "closed" .bool false = .ok (closedProperty, ⟨17⟩) := rfl
  exact (Registered.none.next hspeed).next hclosed

/-- Setting the speed of the only road to fifty, in its stored direction. -/
noncomputable def speedWrite : PropertyWrite Exact :=
  ⟨(cutRoad 0).view RoadGraph.onlyRoad, speedProperty, .along (.real 50)⟩

/-- Closing the only road. -/
noncomputable def closedWrite : PropertyWrite Exact :=
  ⟨(cutRoad 0).view RoadGraph.onlyRoad, closedProperty, .along true⟩

theorem speed_encode : speedProperty.encode (.real 50) = .ok 25 := by
  have h := Exact.toRaw_steps (p := ⟨⟨"speed", 8, 0, some 8⟩, .real 2⟩) rfl two_ne_zero
    (n := 25) (by decide)
  have hfifty : ((25 : Nat) : ℝ) * 2 = 50 := by norm_num
  rw [hfifty] at h
  exact h

theorem written_speed_closed : ∃ g, Written (cutRoad 0) [speedWrite, closedWrite] g := by
  have hroad : 0 < (cutRoad 0).words.size := by
    rw [show (cutRoad 0).words = _ from (RoadGraph.oneRoad_eq _ _ _ _ _).2.2.1]
    decide
  have hfirst := Written.start.accepted
    (PropertyWrite.perform_of_changes (w := speedWrite) (.along speed_encode) hroad)
  exact ⟨_, hfirst.accepted
    (PropertyWrite.perform_of_changes (w := closedWrite) (.along rfl)
      (hroad.trans_eq Array.size_modify.symm))⟩

end Splicing

/-! ## §4. One store. -/

/-- **What is written last is what is read.**  After any history of writes of registered properties
to a road graph, whatever view a query graph over it shows of a road, a property reads the value
that has been given last to it, for this road and in the direction in which it is read; a value that
has not been given by any write is that of the start.  A decimal is read in whole steps; if the
number of its steps does not fit into the property, only the lowest bits of it are left.  Writes
change flag words and nothing else, and a write that is refused leaves the graph as it is. -/
theorem property_reads_last_write {ps : List (Property K)} {l : FlagLayout}
    (hps : Registered ps l) {g₀ g : RoadGraph K} {done : List (PropertyWrite K)}
    (h : Written g₀ done g) (hdone : ∀ w ∈ done, w.property ∈ ps) (o : Overlay K)
    (tracked : List Nat) :
    (∀ v, (QueryGraph.mk g o tracked).Shows v → (QueryGraph.mk g o tracked).UpToDate v) ∧
      (∀ v, (QueryGraph.mk g o tracked).UpToDate v → ∀ p ∈ ps, ∀ opposite,
        (∀ x, LastAssigned done v.road p (v.direction opposite) x →
          (∃ n, p.encode x = .ok n ∧ v.get p opposite = p.decode (n % 2 ^ p.bits.bits)) ∧
            (p.Keeps x → v.get p opposite = p.quantised x)) ∧
        ((∀ w ∈ done, ∀ x, ¬ w.Assigns v.road p (v.direction opposite) x) →
          v.get p opposite = p.read (v.direction opposite) (g₀.word v.road))) ∧
      (∃ words, g = { g₀ with words := words }) ∧
      ∀ (w : PropertyWrite K) (e : Error K) (g' : RoadGraph K),
        w.perform.run.run g = (.error e, g') → g' = g := by
  refine ⟨fun v hv => hv.upToDate, fun v hv p hp opposite => ⟨fun x hx => ?_, fun hnot => ?_⟩,
    h.eq_but_words, fun w e g' => PropertyWrite.eq_of_refused⟩
  · obtain ⟨n, hn, hread⟩ := h.read_of_lastAssigned hps hdone hp hx
    have hget : v.get p opposite = p.decode (n % 2 ^ p.bits.bits) := by
      unfold EdgeView.get
      rw [hv, Property.read_eq_decode]
      exact congrArg p.decode hread
    refine ⟨⟨n, hn, hget⟩, fun hkeeps => ?_⟩
    have hbits := hps.bits_le hp
    have hfits := (IntProperty.le_maxValue_iff hbits).1 (hps.le_maxValue hp hkeeps hn)
    rw [hget, Nat.mod_eq_of_lt hfits]
    exact Property.decode_encode hn
  · unfold EdgeView.get
    rw [hv, Property.read_eq_decode, Property.read_eq_decode]
    exact congrArg p.decode (h.read_of_not_assigned hps hdone hp hnot)

open Splicing in
/-- A speed that is written through a view of the road is read through every view of it, pieces
included, after the road has been closed as well. -/
theorem property_reads_last_write_cutRoad :
    ∃ o final g, Overlay.build (cutRoad 0) cutSnaps = (.ok o, final) ∧
      Written (cutRoad 0) [speedWrite, closedWrite] g ∧
      ∀ v, (QueryGraph.ofOverlay g o).Shows v → v.road = 0 →
        v.get speedProperty v.reverse = Exact.real 50 := by
  obtain ⟨o, final, hbuild, -⟩ := build_cutRoad 0
  obtain ⟨g, hg⟩ := written_speed_closed
  obtain ⟨hshown, hread, -⟩ := property_reads_last_write registered_speed_closed hg
    (by simp [speedWrite, closedWrite]) o []
  refine ⟨o, final, g, hbuild, hg, fun v hv hroad => ?_⟩
  have hlast : LastAssigned [speedWrite, closedWrite] v.road speedProperty
      (v.direction v.reverse) (.real 50) := by
    refine ⟨[], speedWrite, [closedWrite], rfl, .along hroad.symm ?_, ?_⟩
    · unfold EdgeView.direction
      rw [bne_self_eq_false]
      rfl
    · intro u hu y hassigns
      obtain rfl := List.mem_singleton.1 hu
      cases hassigns.property_eq
  have hkept := ((hread v (hshown v hv) _ (by simp) _).1 _ hlast).2 (Exact.keeps_decimal _ _)
  rw [hkept, ← Property.decode_encode speed_encode]
  show Exact.real ((25 : Nat) / 10 ^ 0) * Exact.real 2 = Exact.real 50
  rw [Exact.real_mul]
  norm_num

end RoadSplice

/-
  RoadSplice.Proofs.Weighting.Speed — what a weighting by speed makes of a view.

  The weight of a view depends on its distance, its direction, the flag word of the road behind
  it and its mark, and on nothing else.  Two views of one road in opposite directions swap their
  weights; a distance that is not negative takes no negative time.
-/
import RoadSplice.Graph.RoadGraph
import RoadSplice.Proofs.Numeric.Order
import RoadSplice.Weighting.Speed

namespace RoadSplice

namespace SpeedWeighting

section

variable {K : Type} [Scalar K] (w : SpeedWeighting K)

/-- The seconds depend on the distance, the direction and the flag word. -/
theorem seconds?_congr {u v : EdgeView K} {r s : Bool} (hword : u.word = v.word)
    (hdir : u.direction r = v.direction s) (hdistance : u.distance = v.distance) :
    w.seconds? u r = w.seconds? v s := by
  simp only [seconds?, EdgeView.getDecimal, EdgeView.getBool, hword, hdir, hdistance]
  rfl

/-- **What a weight depends on.** -/
theorem edgeWeight_congr {u v : EdgeView K} {r s : Bool} (hword : u.word = v.word)
    (hdir : u.direction r = v.direction s) (hdistance : u.distance = v.distance)
    (hmark : u.unfavored = v.unfavored) : w.edgeWeight u r = w.edgeWeight v s := by
  simp only [edgeWeight, w.seconds?_congr hword hdir hdistance, hmark]

/-- What a time depends on: no mark changes it. -/
theorem edgeMillis_congr {u v : EdgeView K} {r s : Bool} (hword : u.word = v.word)
    (hdir : u.direction r = v.direction s) (hdistance : u.distance = v.distance) :
    w.edgeMillis u r = w.edgeMillis v s := by
  rw [edgeMillis, edgeMillis, w.seconds?_congr hword hdir hdistance]

theorem toWeighting_edgeWeight : w.toWeighting.edgeWeight = w.edgeWeight := rfl

theorem direction_reversed (g : RoadGraph K) (d : DirectedEdge) (r : Bool) :
    (g.view d.reversed).direction r = (g.view d).direction (!r) := by
  show ((!d.reverse) != r) = (d.reverse != !r)
  cases d.reverse <;> cases r <;> rfl

/-- **Opposite views of one road** swap their weights. -/
theorem edgeWeight_reversed (g : RoadGraph K) (d : DirectedEdge) (r : Bool) :
    w.edgeWeight (g.view d.reversed) r = w.edgeWeight (g.view d) (!r) :=
  w.edgeWeight_congr rfl (direction_reversed g d r) rfl rfl

/-- Opposite views of one road swap their times. -/
theorem edgeMillis_reversed (g : RoadGraph K) (d : DirectedEdge) (r : Bool) :
    w.edgeMillis (g.view d.reversed) r = w.edgeMillis (g.view d) (!r) :=
  w.edgeMillis_congr rfl (direction_reversed g d r) rfl

/-- The speed of a view in its own direction, or nothing if the view is closed. -/
def speed? (v : EdgeView K) (r : Bool) : Option K :=
  let speed := v.getDecimal w.encoding.speed r
  if !v.getBool w.encoding.access r || speed ≤ 0 then none else some speed

end

/-- The weight of a view that is not marked: its distance over its speed, or infinite. -/
theorem edgeWeight_eq {K : Type} [Scalar K] (w : SpeedWeighting K) {v : EdgeView K}
    (hmark : v.unfavored = false) (r : Bool) :
    w.edgeWeight v r = match w.speed? v r with
      | some speed => v.distance / (speed / 3.6)
      | none => Scalar.infinity := by
  unfold edgeWeight seconds? speed?
  dsimp only
  by_cases hclosed : (!v.getBool w.encoding.access r ||
      decide (v.getDecimal w.encoding.speed r ≤ 0)) = true
  · rw [if_pos hclosed, if_pos hclosed]
  · rw [if_neg hclosed, if_neg hclosed]
    simp [hmark]

theorem speed?_congr {K : Type} [Scalar K] (w : SpeedWeighting K) {u v : EdgeView K} {r : Bool}
    (hword : u.word = v.word) (hreverse : u.reverse = v.reverse) : w.speed? u r = w.speed? v r := by
  simp only [speed?, EdgeView.getDecimal, EdgeView.getBool, EdgeView.direction, hword, hreverse]
  rfl

/-- A speed that is given is not at most zero, neither is what becomes of it per second. -/
theorem speed_pos (w : SpeedWeighting Exact) {v : EdgeView Exact} {r : Bool} {speed : Exact}
    (h : w.speed? v r = some speed) : ¬ speed / 3.6 ≤ 0 := by
  unfold speed? at h
  dsimp only at h
  split at h
  · simp at h
  · rename_i hopen
    simp only [Bool.or_eq_true, decide_eq_true_eq, not_or] at hopen
    obtain rfl : _ = speed := by simpa using h
    have hspeed := hopen.2
    rw [Exact.ofScientific_eq]
    -- A speed may be infinite, and then it is so per second.
    cases hv : v.getDecimal w.encoding.speed r with
    | real x =>
      have hx : 0 < x := by simpa [hv] using hspeed
      rw [Exact.real_div x (by norm_num)]
      simp only [Exact.zero_eq, Exact.real_le_real, not_le]
      positivity
    | infinite n =>
      have hn : n = false := by simpa [hv] using hspeed
      rw [Exact.infinite_div_real n (by norm_num)]
      simp [hn]
    | nan => simp

/-- **Parts of a view weigh as much as the view**, where their distances add up to its own. -/
theorem total_edgeWeight (w : SpeedWeighting Exact) {v : EdgeView Exact}
    {vs : List (EdgeView Exact)} (hne : vs ≠ []) (hmark : v.unfavored = false)
    (hparts : ∀ u ∈ vs, u.word = v.word ∧ u.reverse = v.reverse ∧ u.unfavored = false)
    (hsum : total (vs.map (·.distance)) = v.distance) :
    total (vs.map (w.edgeWeight · false)) = w.edgeWeight v false := by
  have hpart : ∀ u ∈ vs, w.edgeWeight u false = match w.speed? v false with
      | some speed => u.distance / (speed / 3.6)
      | none => Scalar.infinity := fun u hu => by
    obtain ⟨hword, hreverse, hu'⟩ := hparts u hu
    rw [w.edgeWeight_eq hu', w.speed?_congr hword hreverse]
    cases w.speed? v false <;> rfl
  rw [w.edgeWeight_eq hmark, List.map_congr_left hpart]
  cases hspeed : w.speed? v false with
  | none =>
    -- Each part is closed like the view.
    obtain ⟨u, us, rfl⟩ := List.exists_cons_of_ne_nil hne
    simp only [List.map_const', Exact.infinity_eq]
    exact Exact.total_replicate_infinite _ us.length
  | some speed =>
    have hdiv := Exact.total_div (w.speed_pos hspeed) (vs.map (·.distance)) (by simpa using hne)
    rw [List.map_map] at hdiv
    exact hdiv.trans (by rw [hsum])

/-- **No negative weights** where distances are not negative. -/
theorem edgeWeight_nonneg (w : SpeedWeighting Exact) {v : EdgeView Exact}
    (hmark : v.unfavored = false) (hdistance : v.distance.Unsigned) {r : Bool} {c : ℝ}
    (hc : w.edgeWeight v r = .real c) : 0 ≤ c := by
  rw [w.edgeWeight_eq hmark] at hc
  cases hs : w.speed? v r with
  | none => simp [hs] at hc
  | some speed =>
    rw [hs] at hc
    have hreal : Exact.IsReal (v.distance / (speed / 3.6)) := ⟨c, hc⟩
    obtain hdistance | hnan := hdistance
    · have := Exact.zero_le_val_div hdistance (w.speed_pos hs) hreal
      rwa [show v.distance / (speed / 3.6) = .real c from hc] at this
    · rw [hnan, Exact.nan_div] at hreal
      obtain ⟨x, hx⟩ := hreal
      cases hx

/-- A car that pays nothing for turns. -/
noncomputable def carWithoutTurns : SpeedWeighting Exact :=
  { encoding :=
      { access := ⟨⟨"car_access", 1, 0, some 1⟩⟩
        speed := ⟨⟨"car_average_speed", 5, 2, some 7⟩, 5⟩
        roadClass := ⟨⟨"road_class", 4, 12, none⟩⟩ }
    config := ⟨300, 40, false⟩
    turns := none }

/-- The flag word of a road that is open in both directions, at 60 kilometres per hour. -/
def openWord : Nat := 1587

/-- The flag word of a road that is open in its stored direction only, at 60 kilometres per hour. -/
def oneWayWord : Nat := 49

/-- **An edge that may be used at 60 kilometres per hour** takes a finite time if its length and the
penalty for it are finite. -/
theorem isReal_edgeWeight_of_sixty (w : SpeedWeighting Exact)
    (hcar : w.encoding = carWithoutTurns.encoding) {v : EdgeView Exact} {r : Bool}
    (haccess : carWithoutTurns.encoding.access.read (v.direction r) v.word = true)
    (hspeed : carWithoutTurns.encoding.speed.int.read (v.direction r) v.word = 12)
    (hpenalty : w.config.headingPenalty.IsReal) (hdistance : v.distance.IsReal) :
    (w.edgeWeight v r).IsReal := by
  have hsixty : v.getDecimal w.encoding.speed r = Exact.real 60 := by
    rw [hcar]
    show Scalar.decimal (carWithoutTurns.encoding.speed.int.read _ v.word) 0 * (5 : Exact) = _
    rw [hspeed, show (5 : Exact) = Exact.real 5 from Exact.ofNat_eq 5]
    norm_num
  have hopen : v.getBool w.encoding.access r = true := by
    rw [hcar]
    exact haccess
  obtain ⟨x, hx⟩ := hdistance
  have hseconds : ∃ y, w.seconds? v r = some (Exact.real y) := by
    refine ⟨x / (60 / (36 / 10)), ?_⟩
    unfold seconds?
    rw [hsixty, hopen, hx]
    dsimp only
    rw [if_neg (by simp)]
    show some (Exact.real x / (Exact.real 60 / Scalar.decimal 36 1)) = _
    rw [Exact.decimal_eq, Exact.real_div 60 (by norm_num), Exact.real_div x (by norm_num)]
    norm_num
  obtain ⟨y, hy⟩ := hseconds
  unfold edgeWeight
  rw [hy]
  dsimp only
  split
  · exact (Exact.isReal_add _ _).2 ⟨Exact.isReal_real y, hpenalty⟩
  · exact Exact.isReal_real y

theorem isReal_carPenalty : carWithoutTurns.config.headingPenalty.IsReal := ⟨300, Exact.ofNat_eq 300⟩

/-- A car passes an open road of finite length in finite time, if the penalty for it is finite. -/
theorem isReal_edgeWeight_of_open (w : SpeedWeighting Exact)
    (hcar : w.encoding = carWithoutTurns.encoding) (hpenalty : w.config.headingPenalty.IsReal)
    {v : EdgeView Exact} (hword : v.word = BitVec.ofNat 64 openWord) (hdistance : v.distance.IsReal)
    (r : Bool) : (w.edgeWeight v r).IsReal := by
  -- The word grants access and holds a speed of 12 steps, in both directions.
  have haccess : ∀ b, carWithoutTurns.encoding.access.read b (BitVec.ofNat 64 openWord) = true := by
    decide
  have hspeed : ∀ b, carWithoutTurns.encoding.speed.int.read b (BitVec.ofNat 64 openWord) = 12 := by
    decide
  exact w.isReal_edgeWeight_of_sixty hcar (hword ▸ haccess _) (hword ▸ hspeed _) hpenalty hdistance

theorem isReal_edgeWeight_open {v : EdgeView Exact} (hword : v.word = BitVec.ofNat 64 openWord)
    (hdistance : v.distance.IsReal) (r : Bool) : (carWithoutTurns.edgeWeight v r).IsReal :=
  carWithoutTurns.isReal_edgeWeight_of_open rfl isReal_carPenalty hword hdistance r

/-- A car passes a one-way road of finite length in its stored direction and in no other. -/
theorem isReal_edgeWeight_oneWay {v : EdgeView Exact}
    (hword : v.word = BitVec.ofNat 64 oneWayWord) (hdistance : v.distance.IsReal) {r : Bool} :
    (carWithoutTurns.edgeWeight v r).IsReal ↔ v.direction r = false := by
  have haccess : ∀ b, carWithoutTurns.encoding.access.read b (BitVec.ofNat 64 oneWayWord) = !b := by
    decide
  have hspeed : carWithoutTurns.encoding.speed.int.read false (BitVec.ofNat 64 oneWayWord) = 12 := by
    decide
  cases hdir : v.direction r with
  | false =>
    refine iff_of_true (carWithoutTurns.isReal_edgeWeight_of_sixty rfl ?_ ?_ isReal_carPenalty
      hdistance) rfl
    · rw [hdir, hword, haccess]
      rfl
    · rw [hdir, hword, hspeed]
  | true =>
    have hclosed : carWithoutTurns.seconds? v r = none := by
      have hno : v.getBool carWithoutTurns.encoding.access r = false := by
        unfold EdgeView.getBool
        rw [hdir, hword, haccess]
        rfl
      unfold seconds?
      rw [hno]
      rfl
    refine iff_of_false ?_ (Bool.noConfusion)
    unfold edgeWeight
    rw [hclosed]
    rintro ⟨x, ⟨⟩⟩

end SpeedWeighting

end RoadSplice

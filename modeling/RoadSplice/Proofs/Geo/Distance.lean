/-
  RoadSplice.Proofs.Geo.Distance — distances between exact positions.

  The plane distance of two finite positions is a finite number.  It tells a position apart from
  all others unless a parallel shrinks to a point there, as it does at a pole, or the latitude is
  infinite, where nothing is measured.
-/
import RoadSplice.Geo.Distance
import RoadSplice.Proofs.Numeric.Order

namespace RoadSplice

open Scalar

/-! ## §1. Positions that the plane distance tells apart. -/

/-- **A position that the plane distance tells apart**: whatever is no farther away from it than
the position itself coincides with it. -/
def Geo.Separates {K : Type} [Scalar K] (a : Point K) : Prop :=
  ∀ p : Point K, (order (Geo.planeNormalizedDistance a.lat a.lon p.lat p.lon)
    (Geo.planeNormalizedDistance a.lat a.lon a.lat a.lon)).isLE = true → p.coincides a = true

/-! ## §2. Finite positions. -/

/-- **A finite position**: its elevation is finite or unknown. -/
structure Point.Finite (p : Point Exact) : Prop where
  lat : p.lat.IsReal
  lon : p.lon.IsReal
  ele : ∀ n, p.ele ≠ .infinite n

namespace Exact

theorem sqrt_real {x : ℝ} (h : 0 ≤ x) : Scalar.sqrt (real x) = real (Real.sqrt x) :=
  if_neg (not_lt.2 h)

theorem radians_real (x : ℝ) : radians (real x) = real (x * (Real.pi / 180)) := by
  have h : (180 : Exact) = real 180 := ofNat_eq 180
  unfold radians
  rw [h, pi_eq]
  show real x * div (real Real.pi) (real 180) = _
  simp [div]

theorem shrink_real (a c : ℝ) :
    Geo.shrink (real a) (real c) = real (Real.cos ((a + c) / 2 * (Real.pi / 180))) := by
  have h : (2 : Exact) = real 2 := ofNat_eq 2
  unfold Geo.shrink
  rw [h, real_add]
  show cos (radians (div (real (a + c)) (real 2))) = _
  simp [div, radians_real]

/-- The plane distance of finite positions. -/
theorem planeNormalizedDistance_real (a b c d : ℝ) :
    Geo.planeNormalizedDistance (real a) (real b) (real c) (real d) =
      real (((c - a) * (Real.pi / 180)) ^ 2 +
        (Real.cos ((a + c) / 2 * (Real.pi / 180)) * ((d - b) * (Real.pi / 180))) ^ 2) := by
  unfold Geo.planeNormalizedDistance
  simp only [real_sub, radians_real, shrink_real, real_mul, real_add]
  congr 1
  ring

theorem planeNormalizedDistance_self (a b : ℝ) :
    Geo.planeNormalizedDistance (real a) (real b) (real a) (real b) = real 0 := by
  rw [planeNormalizedDistance_real]
  simp

/-- **The length of a segment between finite positions** is a finite number. -/
theorem planeDistance_real (a b c d : ℝ) :
    ∃ x, 0 ≤ x ∧ Geo.planeDistance (real a) (real b) (real c) (real d) = real x := by
  have h : (Geo.planeRadius : Exact) = real 6371000 := ofNat_eq 6371000
  obtain ⟨x, hx, hdist⟩ : ∃ x, 0 ≤ x ∧
      Geo.planeNormalizedDistance (real a) (real b) (real c) (real d) = real x :=
    ⟨_, by positivity, planeNormalizedDistance_real a b c d⟩
  refine ⟨6371000 * Real.sqrt x, by positivity, ?_⟩
  unfold Geo.planeDistance
  rw [hdist, h, sqrt_real hx, real_mul]

/-! ## §3. Infinite latitudes. -/

/-- Beside an infinite latitude no degree of longitude has a length. -/
theorem shrink_infinite (n : Bool) (lat : Exact) :
    Geo.shrink (infinite n) lat = nan ∧ Geo.shrink lat (infinite n) = nan := by
  have h : (2 : Exact) = real 2 := ofNat_eq 2
  have hcos : ∀ a b : Exact, ¬ (IsReal a ∧ IsReal b) →
      Scalar.cos (radians ((a + b) / real 2)) = nan := by
    intro a b hab
    refine cos_of_not_isReal fun hreal => hab ?_
    have hmean := (isReal_mul _ _).1 hreal
    exact (isReal_add a b).1 ((isReal_div_real two_ne_zero).1 hmean.1)
  have hne : ¬ IsReal (infinite n) := by
    rintro ⟨x, ⟨⟩⟩
  unfold Geo.shrink
  rw [h]
  exact ⟨hcos _ _ fun hab => hne hab.1, hcos _ _ fun hab => hne hab.2⟩

/-- **A position of infinite latitude** is at no distance, not even from itself. -/
theorem planeNormalizedDistance_infinite (n : Bool) (b lat lon : Exact) :
    Geo.planeNormalizedDistance (infinite n) b lat lon = nan := by
  unfold Geo.planeNormalizedDistance
  simp only [(shrink_infinite n lat).1, nan_mul, add_nan]

/-- **A segment that begins at an infinite latitude** has no foot: the place of a fix on it is not
a number. -/
theorem crossingPoint_infinite (n : Bool) (lat lon b d : Exact) (y : ℝ) :
    Geo.crossingPoint lat lon (infinite n) b (real y) d = (nan, nan) := by
  have hnan : ((nan : Exact) == 0) = false := by simp [← Bool.not_eq_true]
  have hlat : ((infinite (!n) : Exact) == 0) = false := by simp [← Bool.not_eq_true]
  unfold Geo.crossingPoint Geo.projectionFactor
  simp only [(shrink_infinite n (real y)).1, mul_nan, nan_sub, nan_mul, nan_add, nan_div, add_nan,
    real_sub_infinite, hnan, hlat, Bool.false_eq_true, ↓reduceIte]

/-! ## §4. Poles. -/

/-- What is at a finite distance from a finite position is finite. -/
theorem isReal_of_planeNormalizedDistance {a b : ℝ} {lat lon : Exact}
    (h : IsReal (Geo.planeNormalizedDistance (real a) (real b) lat lon)) :
    IsReal lat ∧ IsReal lon := by
  unfold Geo.planeNormalizedDistance radians at h
  simp only [isReal_add, isReal_mul, isReal_sub] at h
  exact ⟨h.1.1.1.1, h.2.1.2.1.1⟩

/-- **Off the poles positions are told apart**: at a finite position where the parallel has not
shrunk to a point, no other position is at distance zero. -/
theorem separates_of_cos_ne {a b : ℝ} (h : Real.cos (a * (Real.pi / 180)) ≠ 0) (ele : Exact) :
    Geo.Separates (⟨real a, real b, ele⟩ : Point Exact) := by
  rintro ⟨lat, lon, ele'⟩ hle
  have hle : Geo.planeNormalizedDistance (real a) (real b) lat lon ≤ real 0 := by
    rw [planeNormalizedDistance_self, order_isLE_iff] at hle
    exact hle.resolve_right (by simp)
  have hunsigned : Unsigned (Geo.planeNormalizedDistance (real a) (real b) lat lon) :=
    (Unsigned.mul_self _).add (Unsigned.mul_self _)
  obtain ⟨⟨y, rfl⟩, ⟨z, rfl⟩⟩ := isReal_of_planeNormalizedDistance (hunsigned.isReal_of_le hle)
  rw [planeNormalizedDistance_real, real_le_real] at hle
  have hpi : Real.pi / 180 ≠ 0 := by positivity
  obtain ⟨hacross, halong⟩ := (add_eq_zero_iff_of_nonneg (sq_nonneg _) (sq_nonneg _)).1
    (le_antisymm hle (by positivity))
  -- The latitudes agree, so the mean latitude is that of the position.
  obtain rfl : y = a := by
    rcases mul_eq_zero.1 ((pow_eq_zero_iff two_ne_zero).1 hacross) with hy | hy
    · exact sub_eq_zero.1 hy
    · exact absurd hy hpi
  rw [show (y + y) / 2 = y by ring] at halong
  obtain rfl : z = b := by
    rcases mul_eq_zero.1 ((pow_eq_zero_iff two_ne_zero).1 halong) with hz | hz
    · exact absurd hz h
    · rcases mul_eq_zero.1 hz with hz | hz
      · exact sub_eq_zero.1 hz
      · exact absurd hz hpi
  simp [Point.coincides, Point.tolerance, Scalar.abs]

/-! ## §5. Shapes. -/

/-- **A shape whose segments are of finite length** has a finite length. -/
theorem lengthOf_of_segments {s : Polyline Exact}
    (hs : ∀ a ∈ s.points, ∀ b ∈ s.points, ∃ y, 0 ≤ y ∧
      (if s.is3d then Geo.planeDistance3d a b else Geo.planeDistance a.lat a.lon b.lat b.lon) =
        real y) :
    ∃ x, 0 ≤ x ∧ Geo.lengthOf s = real x := by
  unfold Geo.lengthOf
  refine List.foldlRecOn (motive := fun total => ∃ x, 0 ≤ x ∧ total = real x) _ _
    ⟨0, le_rfl, zero_eq⟩ ?_
  rintro _ ⟨x, hx, rfl⟩ ⟨a, b⟩ hab
  obtain ⟨ha, hb⟩ := List.of_mem_zip hab
  obtain ⟨y, hy, hsegment⟩ := hs a ha b (List.mem_of_mem_drop hb)
  refine ⟨x + y, add_nonneg hx hy, ?_⟩
  show real x + (if s.is3d then _ else _) = _
  rw [hsegment, real_add]

/-- **A flat shape of finite positions** has a finite length. -/
theorem lengthOf_real {s : Polyline Exact} (hflat : s.is3d = false)
    (hs : ∀ p ∈ s.points, IsReal p.lat ∧ IsReal p.lon) :
    ∃ x, 0 ≤ x ∧ Geo.lengthOf s = real x := by
  refine lengthOf_of_segments fun a ha b hb => ?_
  obtain ⟨⟨a₁, ha₁⟩, ⟨a₂, ha₂⟩⟩ := hs a ha
  obtain ⟨⟨b₁, hb₁⟩, ⟨b₂, hb₂⟩⟩ := hs b hb
  rw [if_neg (by simp [hflat]), ha₁, ha₂, hb₁, hb₂]
  exact planeDistance_real a₁ a₂ b₁ b₂

/-- The length of a segment between finite positions, the climb included. -/
theorem planeDistance3d_real {a b : Point Exact} (ha : a.Finite) (hb : b.Finite) :
    ∃ x, 0 ≤ x ∧ Geo.planeDistance3d a b = real x := by
  obtain ⟨a₁, ha₁⟩ := ha.lat
  obtain ⟨a₂, ha₂⟩ := ha.lon
  obtain ⟨b₁, hb₁⟩ := hb.lat
  obtain ⟨b₂, hb₂⟩ := hb.lon
  obtain ⟨x, hx, hlevel⟩ := planeDistance_real a₁ a₂ b₁ b₂
  have hlevel : Geo.planeDistance a.lat a.lon b.lat b.lon = real x := by
    rw [ha₁, ha₂, hb₁, hb₂, hlevel]
  unfold Geo.planeDistance3d
  rw [hlevel]
  dsimp only
  by_cases hboth : (a.hasElevation && b.hasElevation) = true
  · -- What is neither infinite nor unknown is a number.
    have hele : ∀ p : Point Exact, p.Finite → p.hasElevation = true → p.ele.IsReal := by
      intro p hp hknown
      cases hele : p.ele with
      | real y => exact isReal_real y
      | infinite n => exact absurd hele (hp.ele n)
      | nan => simp [Point.hasElevation, hele] at hknown
    rw [Bool.and_eq_true] at hboth
    obtain ⟨y, hy⟩ := hele a ha hboth.1
    obtain ⟨z, hz⟩ := hele b hb hboth.2
    rw [if_pos (by simpa using hboth), hy, hz, real_sub, real_mul, real_mul, real_add,
      sqrt_real (by nlinarith [mul_self_nonneg x, mul_self_nonneg (z - y)])]
    exact ⟨_, Real.sqrt_nonneg _, rfl⟩
  · rw [if_neg hboth]
    exact ⟨x, hx, rfl⟩

/-- **A shape of finite positions** has a finite length, climbs included. -/
theorem lengthOf_finite {s : Polyline Exact} (hs : ∀ p ∈ s.points, p.Finite) :
    ∃ x, 0 ≤ x ∧ Geo.lengthOf s = real x := by
  refine lengthOf_of_segments fun a ha b hb => ?_
  split
  · exact planeDistance3d_real (hs a ha) (hs b hb)
  · obtain ⟨a₁, ha₁⟩ := (hs a ha).lat
    obtain ⟨a₂, ha₂⟩ := (hs a ha).lon
    obtain ⟨b₁, hb₁⟩ := (hs b hb).lat
    obtain ⟨b₂, hb₂⟩ := (hs b hb).lon
    rw [ha₁, ha₂, hb₁, hb₂]
    exact planeDistance_real a₁ a₂ b₁ b₂

/-! ## §6. Parallels. -/

theorem abs_real (x : ℝ) : Scalar.abs (real x) = real |x| := by
  unfold Scalar.abs
  by_cases h : x < 0
  · rw [if_pos (by simpa using h), real_neg, abs_of_neg h]
  · rw [if_neg (by simpa using h), abs_of_nonneg (not_lt.1 h)]

/-- Only a number is of less than some size. -/
theorem isReal_of_abs_lt {a : Exact} {x : ℝ} (h : Scalar.abs a < real x) : IsReal a := by
  unfold Scalar.abs at h
  rw [zero_eq] at h
  cases a with
  | real y => exact isReal_real y
  | infinite n => cases n <;> simp [show -infinite true = infinite false from rfl] at h
  | nan => simp at h

/-- **Only finite positions coincide.** -/
theorem isReal_of_coincides {p q : Point Exact} (h : p.coincides q = true) :
    (p.lat.IsReal ∧ q.lat.IsReal) ∧ p.lon.IsReal ∧ q.lon.IsReal := by
  unfold Point.coincides Point.tolerance at h
  rw [Bool.and_eq_true, decide_eq_true_eq, decide_eq_true_eq, decimal_eq] at h
  exact ⟨(isReal_sub _ _).1 (isReal_of_abs_lt h.1), (isReal_sub _ _).1 (isReal_of_abs_lt h.2)⟩

/-- **A finite position** coincides with itself, and with any other of its coordinates. -/
theorem coincides_of_finite {p q : Point Exact} (hlat : p.lat.IsReal) (hlon : p.lon.IsReal)
    (hlat' : q.lat = p.lat) (hlon' : q.lon = p.lon) : p.coincides q = true := by
  have hnear : ∀ x : ℝ, Scalar.abs (real x - real x) < (Point.tolerance : Exact) := by
    intro x
    unfold Point.tolerance
    rw [real_sub, abs_real, decimal_eq, real_lt_real, sub_self, abs_zero]
    norm_num
  obtain ⟨x, hx⟩ := hlat
  obtain ⟨y, hy⟩ := hlon
  unfold Point.coincides
  rw [hlat', hlon', hx, hy, decide_eq_true (hnear x), decide_eq_true (hnear y)]
  rfl

/-- A position on a parallel, of unknown elevation. -/
noncomputable def onParallel (a x : ℝ) : Point Exact := .flat (real a) (real x)

/-- Positions on a parallel that are a thousandth of a degree apart do not coincide. -/
theorem coincides_onParallel (a : ℝ) {x y : ℝ} (h : x + 1 / 1000 ≤ y ∨ y + 1 / 1000 ≤ x) :
    (onParallel a x).coincides (onParallel a y) = false := by
  have hfar : ¬ Scalar.abs (real (x - y)) < (Point.tolerance : Exact) := by
    unfold Point.tolerance
    rw [abs_real, decimal_eq, real_lt_real, not_lt]
    refine le_trans (by norm_num) (show 1 / 1000 ≤ |x - y| from ?_)
    rw [le_abs']
    exact h.imp (fun h => by linarith) fun h => by linarith
  unfold Point.coincides onParallel Point.flat
  rw [real_sub, real_sub, decide_eq_false hfar, Bool.and_false]

/-- **Along a parallel** the plane distance is the difference in longitude, shrunk. -/
theorem planeNormalizedDistance_onParallel (a x y : ℝ) :
    Geo.planeNormalizedDistance (onParallel a x).lat (onParallel a x).lon (onParallel a y).lat
        (onParallel a y).lon =
      real ((Real.cos (a * (Real.pi / 180)) * ((y - x) * (Real.pi / 180))) ^ 2) := by
  unfold onParallel Point.flat
  rw [planeNormalizedDistance_real, show (a + a) / 2 = a by ring, sub_self, zero_mul,
    zero_pow two_ne_zero, zero_add]

end Exact

end RoadSplice

/-
  RoadSplice.Proofs.Geo.Angle — how far two directions are apart.

  Directions are angles up to full turns.  An azimuth and the orientation of a segment are each
  turned round at most once before they are subtracted.  Over exact numbers this is always enough:
  what comes out is the least difference of the two that any number of turns leaves.
-/
import RoadSplice.Geo.Angle
import RoadSplice.Proofs.Geo.Distance

namespace RoadSplice.Geo

open Exact

/-! ## §1. Angles up to full turns. -/

/-- **The angle between two directions**: the least difference, with any full turns added. -/
structure AngleBetween (x y d : ℝ) : Prop where
  attained : ∃ k : ℤ, d = |x - y + 2 * Real.pi * k|
  least : ∀ k : ℤ, d ≤ |x - y + 2 * Real.pi * k|

/-- Within half a turn of zero, no full turns bring an angle closer to it. -/
theorem abs_le_abs_add_turns {x : ℝ} (hx : |x| ≤ Real.pi) (k : ℤ) :
    |x| ≤ |x + 2 * Real.pi * k| := by
  by_cases hk : k = 0
  · simp [hk]
  · have hone : (1 : ℝ) ≤ |(k : ℝ)| := by exact_mod_cast Int.one_le_abs hk
    have hturns : 2 * Real.pi ≤ |2 * Real.pi * (k : ℝ)| := by
      rw [abs_mul, abs_of_pos Real.two_pi_pos]
      exact le_mul_of_one_le_right Real.two_pi_pos.le hone
    have htriangle : |2 * Real.pi * (k : ℝ)| - |x| ≤ |x + 2 * Real.pi * k| := by
      have h := abs_sub_abs_le_abs_sub (2 * Real.pi * (k : ℝ)) (-x)
      rwa [abs_neg, sub_neg_eq_add, add_comm (2 * Real.pi * (k : ℝ))] at h
    linarith

/-- A difference of at most half a turn is the angle. -/
theorem angleBetween_of_le {x y : ℝ} (k : ℤ) (h : |x - y + 2 * Real.pi * k| ≤ Real.pi) :
    AngleBetween x y |x - y + 2 * Real.pi * k| := by
  refine ⟨⟨k, rfl⟩, ?_⟩
  intro j
  have hleast := abs_le_abs_add_turns h (j - k)
  have hsum : x - y + 2 * Real.pi * k + 2 * Real.pi * ((j - k : ℤ) : ℝ) =
      x - y + 2 * Real.pi * j := by
    push_cast
    ring
  rwa [hsum] at hleast

theorem AngleBetween.unique {x y d d' : ℝ} (h : AngleBetween x y d) (h' : AngleBetween x y d') :
    d = d' := by
  obtain ⟨k, hk⟩ := h.attained
  obtain ⟨k', hk'⟩ := h'.attained
  apply le_antisymm
  · rw [hk']
    exact h.least k'
  · rw [hk]
    exact h'.least k

/-! ## §2. Azimuths and orientations. -/

theorem real_two : (2 : Exact) = real 2 := ofNat_eq 2

/-- An azimuth as an angle from the east, within half a turn of it. -/
theorem exists_ofAzimuth {h : ℝ} (h0 : 0 ≤ h) (h360 : h ≤ 360) :
    ∃ k : ℤ, ofAzimuth (real h) = real (Real.pi / 2 - h * Real.pi / 180 + 2 * Real.pi * k) ∧
      |Real.pi / 2 - h * Real.pi / 180 + 2 * Real.pi * k| ≤ Real.pi := by
  have hpi := Real.pi_pos
  have hturn : h * Real.pi / 180 ≤ 2 * Real.pi := by
    have := mul_le_mul_of_nonneg_right h360 hpi.le
    linarith
  have hnonneg : 0 ≤ h * Real.pi / 180 := by positivity
  set angle := Real.pi / 2 - h * Real.pi / 180 with hangle
  have hstart : real Real.pi / real 2 - Scalar.radians (real h) = real angle := by
    rw [real_div _ two_ne_zero, radians_real, real_sub, hangle, mul_div_assoc]
  unfold ofAzimuth
  simp only [pi_eq, real_two, hstart, real_neg, real_mul, real_add, real_sub, real_lt_real]
  -- The angle runs from a quarter turn down to three quarters below zero.
  by_cases hlow : angle < -Real.pi
  · refine ⟨1, by simp [hlow], abs_le.2 ⟨?_, ?_⟩⟩ <;> push_cast <;> linarith
  · have hhigh : ¬ Real.pi < angle := by linarith
    refine ⟨0, by simp [hlow, hhigh], abs_le.2 ⟨?_, ?_⟩⟩ <;> push_cast <;> linarith

/-- **Alignment** turns an angle so that it lies within half a turn of the base. -/
theorem exists_align {b o : ℝ} (hb : |b| ≤ Real.pi) (ho : |o| ≤ Real.pi) :
    ∃ k : ℤ, align (real b) (real o) = real (o + 2 * Real.pi * k) ∧
      |o + 2 * Real.pi * k - b| ≤ Real.pi := by
  obtain ⟨hb₁, hb₂⟩ := abs_le.1 hb
  obtain ⟨ho₁, ho₂⟩ := abs_le.1 ho
  unfold align
  simp only [zero_eq, pi_eq, real_two, real_neg, real_mul, real_add, real_sub, real_lt_real,
    real_le_real]
  by_cases hsign : 0 ≤ b
  · -- An angle can only lie too far below a base that is not negative.
    by_cases hfar : o < -Real.pi + b
    · refine ⟨1, by simp [hsign, hfar], abs_le.2 ⟨?_, ?_⟩⟩ <;> push_cast <;> linarith
    · refine ⟨0, by simp [hsign, hfar], abs_le.2 ⟨?_, ?_⟩⟩ <;> push_cast <;> linarith
  · by_cases hfar : Real.pi + b < o
    · refine ⟨-1, ?_, abs_le.2 ⟨?_, ?_⟩⟩
      · simp only [hsign, hfar, ↓reduceIte]
        congr 1
        push_cast
        ring
      · push_cast
        linarith
      · push_cast
        linarith
    · refine ⟨0, by simp [hsign, hfar], abs_le.2 ⟨?_, ?_⟩⟩ <;> push_cast <;> linarith

theorem abs_real (x : ℝ) : Scalar.abs (real x) = real |x| := by
  unfold Scalar.abs
  rw [zero_eq, real_neg]
  by_cases h : x < 0
  · rw [if_pos ((real_lt_real x 0).2 h), abs_of_neg h]
  · rw [if_neg (mt (real_lt_real x 0).1 h), abs_of_nonneg (not_lt.1 h)]

/-- **The deviation from an azimuth is the angle between the two directions.** -/
theorem exists_deviation {h : ℝ} (h0 : 0 ≤ h) (h360 : h ≤ 360) :
    ∃ c : ℝ, ofAzimuth (real h) = real c ∧ |c| ≤ Real.pi ∧ ∀ o : ℝ, |o| ≤ Real.pi →
      ∃ d, Scalar.abs (align (real c) (real o) - real c) = real d ∧
        AngleBetween o (Real.pi / 2 - h * Real.pi / 180) d := by
  obtain ⟨j, hazimuth, hc⟩ := exists_ofAzimuth h0 h360
  refine ⟨_, hazimuth, hc, fun o ho => ?_⟩
  obtain ⟨k, halign, hle⟩ := exists_align hc ho
  refine ⟨_, by rw [halign, real_sub, abs_real], ?_⟩
  have hsum : o + 2 * Real.pi * k - (Real.pi / 2 - h * Real.pi / 180 + 2 * Real.pi * j) =
      o - (Real.pi / 2 - h * Real.pi / 180) + 2 * Real.pi * ((k - j : ℤ) : ℝ) := by
    push_cast
    ring
  rw [hsum] at hle ⊢
  exact angleBetween_of_le (k - j) hle

/-! ## §3. Segments. -/

/-- The orientation of a segment is an angle within half a turn of the east, or no number. -/
theorem orientation_cases (lat1 lon1 lat2 lon2 : Exact) :
    orientation lat1 lon1 lat2 lon2 = nan ∨
      ∃ o : ℝ, orientation lat1 lon1 lat2 lon2 = real o ∧ |o| ≤ Real.pi := by
  unfold orientation
  show atan2 _ _ = nan ∨ ∃ o : ℝ, atan2 _ _ = real o ∧ _
  generalize lat2 - lat1 = y, (lon2 - lon1) * shrink lat1 lat2 = x
  have hpi : |Real.pi| ≤ Real.pi := (abs_of_pos Real.pi_pos).le
  -- Infinite legs have an angle too; only what is no number has none.
  cases y with
  | nan => exact .inl rfl
  | real y =>
    cases x with
    | nan => exact .inl rfl
    | real x => exact .inr ⟨_, rfl, Complex.abs_arg_le_pi _⟩
    | infinite n =>
      cases n with
      | false => exact .inr ⟨_, rfl, Complex.abs_arg_le_pi _⟩
      | true =>
        refine .inr ⟨_, rfl, ?_⟩
        split
        · rwa [abs_neg]
        · exact hpi
  | infinite m =>
    cases x with
    | nan => exact .inl rfl
    | real x => exact .inr ⟨_, rfl, Complex.abs_arg_le_pi _⟩
    | infinite n => exact .inr ⟨_, rfl, Complex.abs_arg_le_pi _⟩

end RoadSplice.Geo

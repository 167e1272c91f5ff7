/-
  RoadSplice.Proofs.Flags.Quantised — decimals in steps, in exact numbers.

  A decimal is stored as the whole number of steps nearest to it; half a step is rounded away from
  zero.  The number is taken when it is not negative and fits into the bits of the property, and
  what is read afterwards lies within half a step of the value that was given and stands for the
  same number.
-/
import Mathlib.Algebra.Order.Round
import RoadSplice.Proofs.Flags.Layout
import RoadSplice.Proofs.Numeric.Order

namespace RoadSplice

open Exact

/-! ## §1. The nearest whole number. -/

/-- **A whole number nearest to a number**: no farther than one half, and where two are as near, the
one that lies away from zero. -/
structure NearestAway (x : ℝ) (k : ℤ) : Prop where
  near : |x - k| ≤ 1 / 2
  away : |x - k| = 1 / 2 → |x| < |(k : ℝ)|

namespace NearestAway

variable {x y : ℝ} {k m : ℤ}

/-- A whole number is nearest to itself. -/
theorem self (k : ℤ) : NearestAway k k where
  near := by norm_num
  away h := by norm_num at h

theorem neg (h : NearestAway x k) : NearestAway (-x) (-k) := by
  have hdist : |-x - ((-k : ℤ) : ℝ)| = |x - k| := by
    rw [Int.cast_neg, ← neg_sub', abs_neg]
  constructor
  · rw [hdist]
    exact h.near
  · intro hhalf
    rw [hdist] at hhalf
    rw [abs_neg, Int.cast_neg, abs_neg]
    exact h.away hhalf

/-- **The nearest whole numbers keep the order.**  They could change places only half way between
two whole numbers, and there one of the two is the nearest for both. -/
theorem mono (hx : NearestAway x k) (hy : NearestAway y m) (hxy : x ≤ y) : k ≤ m := by
  by_contra hlt
  have hstep : (m : ℝ) + 1 ≤ k := by exact_mod_cast Int.not_le.1 hlt
  have hlow := (abs_le.1 hx.near).1
  have hhigh := (abs_le.1 hy.near).2
  -- Both numbers lie in the middle, and the two candidates next to it.
  have hmid : x = m + 1 / 2 := by linarith
  have hk : (k : ℝ) = m + 1 := by linarith
  have hy' : y = m + 1 / 2 := by linarith
  have hup : |x| < |(k : ℝ)| := hx.away (by rw [hmid, hk, abs_of_neg] <;> linarith)
  have hdown : |y| < |(m : ℝ)| := hy.away (by rw [hy', abs_of_pos] <;> linarith)
  -- Only one of them lies away from zero.
  rw [hmid, hk] at hup
  rw [hy'] at hdown
  rcases lt_or_ge m 0 with hneg | hpos
  · have hm : (m : ℝ) + 1 ≤ 0 := by exact_mod_cast hneg
    rw [abs_of_nonpos hm, abs_of_neg (by linarith)] at hup
    linarith
  · have hm : (0 : ℝ) ≤ m := by exact_mod_cast hpos
    rw [abs_of_nonneg hm, abs_of_pos (by linarith)] at hdown
    linarith

theorem unique (hk : NearestAway x k) (hm : NearestAway x m) : k = m :=
  le_antisymm (hk.mono hm le_rfl) (hm.mono hk le_rfl)

/-- A number is nearest to one that is not negative exactly when rounding gives it. -/
theorem of_round (hx : 0 ≤ x) : NearestAway x (round x) where
  near := abs_sub_round x
  away h := by
    have hfloor : (round x : ℝ) ≤ x + 1 / 2 ∧ x + 1 / 2 < round x + 1 := by
      rw [round_eq]
      exact ⟨Int.floor_le _, Int.lt_floor_add_one _⟩
    -- The whole number below is nearer than one half, so this is the one above.
    have habove : x - round x < 0 := by
      by_contra hle
      rw [abs_of_nonneg (not_lt.1 hle)] at h
      linarith [hfloor.2]
    rw [abs_of_neg habove] at h
    rw [abs_of_nonneg hx, abs_of_nonneg (by linarith)]
    linarith

end NearestAway

/-- **Rounding finds the nearest whole number**, a half going away from zero. -/
theorem nearestAway_iff {x : ℝ} {k : ℤ} : NearestAway x k ↔ roundAway x = k := by
  have hround : NearestAway x (roundAway x) := by
    unfold roundAway
    split
    · rename_i hneg
      have hback := (NearestAway.of_round (x := -x) (by linarith)).neg
      rwa [neg_neg] at hback
    · rename_i hpos
      exact NearestAway.of_round (not_lt.1 hpos)
  constructor
  · intro h
    exact hround.unique h
  · intro h
    rwa [← h]

namespace DecimalProperty

variable {p : DecimalProperty Exact} {f : ℝ}

/-! ## §2. Which values are taken. -/

/-- A decimal is stored when its number of steps is real, not negative and not too great. -/
theorem toRaw_isOk_iff (p : DecimalProperty Exact) (x : Exact) :
    (∃ n, p.toRaw x = .ok n) ↔ (Scalar.round (x / p.factor)).IsReal ∧
      ¬ Scalar.round (x / p.factor) < 0 ∧
      ¬ Scalar.decimal p.int.maxValue 0 < Scalar.round (x / p.factor) := by
  rw [← isFinite_iff]
  unfold DecimalProperty.toRaw
  dsimp only
  split
  · rename_i hrefused
    refine iff_of_false (by rintro ⟨n, ⟨⟩⟩) ?_
    rintro ⟨hfinite, hlow, hhigh⟩
    simp only [hfinite, hlow, hhigh, decide_false, Bool.not_true, Bool.or_false,
      Bool.false_eq_true] at hrefused
  · rename_i hstored
    refine iff_of_true ⟨_, rfl⟩ ?_
    simpa [and_assoc] using hstored

/-- The number of steps of a real value. -/
theorem round_steps (hf : 0 < f) (x : ℝ) :
    Scalar.round (real x / real f) = real (roundAway (x / f)) := by
  rw [real_div x hf.ne']
  rfl

/-- A value that is no real number has no steps. -/
theorem isReal_of_round_steps (hf : 0 < f) {v : Exact}
    (h : (Scalar.round (v / real f)).IsReal) : v.IsReal := by
  cases v with
  | real x => exact isReal_real x
  | infinite n =>
    rw [infinite_div_real n hf] at h
    obtain ⟨y, hy⟩ := h
    cases hy
  | nan =>
    rw [nan_div] at h
    obtain ⟨y, hy⟩ := h
    cases hy

/-- **A value is taken** exactly when its nearest number of steps is one that the property holds. -/
theorem toRaw_eq_ok_iff (hf : 0 < f) (hp : p.factor = real f) {v : Exact} {n : Nat} :
    p.toRaw v = .ok n ↔ ∃ x, v = real x ∧ NearestAway (x / f) n ∧ n ≤ p.int.maxValue := by
  have hcount : ∀ k : Nat, k ≤ p.int.maxValue → Scalar.count (real ((k : ℤ) : ℝ)) = k := by
    intro k hk
    have hfew : k ≤ greatestCount := by
      have hmax : p.int.maxValue ≤ greatestCount := Nat.le_pred_of_lt p.int.mask.isLt
      omega
    show min ⌊((k : ℤ) : ℝ)⌋₊ greatestCount = k
    rw [Int.cast_natCast, Nat.floor_natCast, Nat.min_eq_left hfew]
  constructor
  · intro h
    obtain ⟨hreal, hlow, hhigh⟩ := (p.toRaw_isOk_iff v).1 ⟨n, h⟩
    have hn := toRaw_ok h
    rw [hp] at hreal hlow hhigh hn
    obtain ⟨x, rfl⟩ := isReal_of_round_steps hf hreal
    rw [round_steps hf, zero_eq, real_lt_real, not_lt] at hlow
    rw [round_steps hf, decimal_eq, pow_zero, div_one, real_lt_real, not_lt] at hhigh
    -- The number of steps is a whole number that is not negative.
    obtain ⟨k, hk⟩ := Int.eq_ofNat_of_zero_le (a := roundAway (x / f)) (by exact_mod_cast hlow)
    have hfits : k ≤ p.int.maxValue := by
      rw [hk] at hhigh
      exact_mod_cast hhigh
    rw [round_steps hf, hk, hcount k hfits] at hn
    subst hn
    exact ⟨x, rfl, nearestAway_iff.2 hk, hfits⟩
  · rintro ⟨x, rfl, hnear, hfits⟩
    have hsteps : Scalar.round (real x / p.factor) = real ((n : ℤ) : ℝ) := by
      rw [hp, round_steps hf, nearestAway_iff.1 hnear]
    have htaken : ∃ m, p.toRaw (real x) = .ok m := by
      rw [toRaw_isOk_iff, hsteps, zero_eq, decimal_eq, pow_zero, div_one, real_lt_real,
        real_lt_real, not_lt, not_lt]
      refine ⟨isReal_real _, ?_, ?_⟩
      · exact_mod_cast Nat.zero_le n
      · exact_mod_cast hfits
    obtain ⟨m, hm⟩ := htaken
    have hnumber := toRaw_ok hm
    rw [hsteps, hcount n hfits] at hnumber
    rw [hm, hnumber]

theorem exists_toRaw_iff (hf : 0 < f) (hp : p.factor = real f) (v : Exact) :
    (∃ n, p.toRaw v = .ok n) ↔
      ∃ x, v = real x ∧ ∃ k : ℤ, NearestAway (x / f) k ∧ 0 ≤ k ∧ k ≤ p.int.maxValue := by
  constructor
  · rintro ⟨n, hn⟩
    obtain ⟨x, hv, hnear, hfits⟩ := (toRaw_eq_ok_iff hf hp).1 hn
    exact ⟨x, hv, n, hnear, Int.natCast_nonneg n, by exact_mod_cast hfits⟩
  · rintro ⟨x, hv, k, hnear, hlow, hfits⟩
    obtain ⟨n, rfl⟩ := Int.eq_ofNat_of_zero_le hlow
    exact ⟨n, (toRaw_eq_ok_iff hf hp).2 ⟨x, hv, hnear, by exact_mod_cast hfits⟩⟩

/-! ## §3. What comes back. -/

/-- **A number that fits is read back** as so many steps. -/
theorem read_write (hp : p.factor = real f) {d : Bool}
    (hroom : p.int.shift d + p.int.bits ≤ FlagLayout.wordBits) (w : Word) {n : Nat}
    (hn : n ≤ p.int.maxValue) : p.read d (p.int.write d w n) = real (n * f) := by
  have hbits : p.int.bits ≤ 64 := by
    unfold FlagLayout.wordBits at hroom
    omega
  have hself : p.int.read d (p.int.write d w n) = n := by
    rw [IntProperty.read_write_self hroom]
    exact Nat.mod_eq_of_lt ((IntProperty.le_maxValue_iff hbits).1 hn)
  unfold DecimalProperty.read
  rw [hself, hp, decimal_eq, pow_zero, div_one, real_mul]

/-- The steps of a value lie within half a step of it. -/
theorem abs_steps_sub_le (hf : 0 < f) {x : ℝ} {k : ℤ} (h : NearestAway (x / f) k) :
    |k * f - x| ≤ f / 2 := by
  have hscaled : k * f - x = -((x / f - k) * f) := by
    field_simp
    ring
  calc |k * f - x| = |x / f - k| * f := by rw [hscaled, abs_neg, abs_mul, abs_of_pos hf]
    _ ≤ 1 / 2 * f := mul_le_mul_of_nonneg_right h.near hf.le
    _ = f / 2 := by ring

/-- **What a decimal property does with values**, whose steps have a given size. -/
structure Quantises (p : DecimalProperty Exact) (f : ℝ) : Prop where
  /-- A value is taken exactly when its number of steps, rounded, is none that is negative and none
  above the greatest one. -/
  taken : ∀ v, (∃ n, p.toRaw v = .ok n) ↔
    ∃ x, v = real x ∧ ∃ k : ℤ, NearestAway (x / f) k ∧ 0 ≤ k ∧ k ≤ p.int.maxValue
  /-- The number that is stored for it is this number of steps. -/
  number : ∀ v n, p.toRaw v = .ok n ↔
    ∃ x, v = real x ∧ NearestAway (x / f) n ∧ n ≤ p.int.maxValue
  /-- Written and read in one direction, it comes back within half a step, as a value that has the
  same number. -/
  readsBack : ∀ x n, p.toRaw (real x) = .ok n → ∀ d w,
    ∃ y, p.read d (p.int.write d w n) = real y ∧ |y - x| ≤ f / 2 ∧ p.toRaw (real y) = .ok n
  /-- Greater values have no smaller numbers. -/
  monotone : ∀ v v' n m, v ≤ v' → p.toRaw v = .ok n → p.toRaw v' = .ok m → n ≤ m

end DecimalProperty

/-- **Decimals are quantised to the nearest step, once and for all**, whatever layout has registered
the property, with whatever bits, for one direction or for both. -/
theorem decimals_quantised {l l' : FlagLayout} {name : String} {bits : Nat} {two : Bool} {f : ℝ}
    (hf : 0 < f) {p : DecimalProperty Exact}
    (hp : l.addDecimal name bits (real f) two = .ok (p, l')) :
    p.int.maxValue = 2 ^ bits - 1 ∧ p.Quantises f := by
  obtain ⟨⟨int, l₁⟩, hint, heq⟩ := except_bind.1 hp
  obtain ⟨rfl, rfl⟩ := Prod.mk.inj (except_pure.1 heq)
  obtain ⟨hplaced, rfl⟩ := FlagLayout.addInt_placed hint
  have hroom : ∀ d, int.shift d + int.bits ≤ FlagLayout.wordBits := fun d =>
    Nat.le_trans (hplaced.within d).2 hplaced.room
  have hbits : int.bits ≤ 64 := Nat.le_trans (Nat.le_add_left _ _) (hroom false)
  have hnumber : ∀ v n, (⟨int, real f⟩ : DecimalProperty Exact).toRaw v = .ok n ↔
      ∃ x, v = real x ∧ NearestAway (x / f) n ∧ n ≤ int.maxValue := by
    intro v n
    exact DecimalProperty.toRaw_eq_ok_iff hf rfl
  refine ⟨?_, ?taken, hnumber, ?readsBack, ?monotone⟩
  · show int.maxValue = _
    rw [IntProperty.maxValue_eq, Nat.min_eq_left hbits]
  case taken =>
    intro v
    exact DecimalProperty.exists_toRaw_iff hf rfl v
  case readsBack =>
    intro x n hn d w
    obtain ⟨x', hx, hnear, hfits⟩ := (hnumber _ n).1 hn
    obtain rfl := Exact.real.inj hx
    refine ⟨n * f, DecimalProperty.read_write rfl (hroom d) w hfits, ?_, ?_⟩
    · exact_mod_cast DecimalProperty.abs_steps_sub_le hf hnear
    · -- A whole number of steps is its own nearest one.
      refine (hnumber _ n).2 ⟨n * f, rfl, ?_, hfits⟩
      rw [mul_div_cancel_right₀ _ hf.ne']
      exact_mod_cast NearestAway.self n
  case monotone =>
    intro v v' n m hle hn hm
    obtain ⟨x, rfl, hx, -⟩ := (hnumber v n).1 hn
    obtain ⟨y, rfl, hy, -⟩ := (hnumber v' m).1 hm
    have hsteps : x / f ≤ y / f := div_le_div_of_nonneg_right ((real_le_real x y).1 hle) hf.le
    exact_mod_cast hx.mono hy hsteps

/-- A speed in five bits, in steps of five: what rounds to the last step is taken, and half a step
above it is not; what rounds to none is taken, and half a step below is not. -/
theorem decimals_quantised_speed :
    let p : DecimalProperty Exact := ⟨⟨"speed", 5, 0, some 5⟩, real 5⟩
    (0 < (5 : ℝ) ∧ FlagLayout.empty.addDecimal "speed" 5 (real 5) true = .ok (p, ⟨10⟩)) ∧
      (p.int.maxValue = 31 ∧ p.Quantises 5) ∧
      p.toRaw (real 157.4) = .ok 31 ∧ (¬ ∃ n, p.toRaw (real 157.5) = .ok n) ∧
      p.toRaw (real (-2.4)) = .ok 0 ∧ ¬ ∃ n, p.toRaw (real (-2.5)) = .ok n := by
  intro p
  have hf : 0 < (5 : ℝ) := by norm_num
  have hp : FlagLayout.empty.addDecimal "speed" 5 (real 5) true = .ok (p, ⟨10⟩) := rfl
  obtain ⟨hmax, hquantises⟩ := decimals_quantised hf hp
  -- Only the nearest number of steps is encoded, and it is unique.
  have hrefused : ∀ (x : ℝ) (k : ℤ), NearestAway (x / 5) k → k < 0 ∨ 31 < k →
      ¬ ∃ n, p.toRaw (real x) = .ok n := by
    rintro x k hk hout ⟨n, hn⟩
    obtain ⟨y, hy, hnear, hfits⟩ := (hquantises.number _ n).1 hn
    obtain rfl := Exact.real.inj hy
    have hkn := hk.unique hnear
    omega
  have hlast : NearestAway (157.4 / 5) 31 :=
    ⟨by norm_num [abs_le], by norm_num [abs_of_pos]⟩
  have hnone : NearestAway (-2.4 / 5) 0 :=
    ⟨by norm_num [abs_le], by norm_num [abs_of_neg]⟩
  refine ⟨⟨hf, hp⟩, ⟨hmax, hquantises⟩, ?_, ?_, ?_, ?_⟩
  · exact (hquantises.number _ 31).2 ⟨157.4, rfl, by exact_mod_cast hlast, by omega⟩
  · exact hrefused 157.5 32 ⟨by norm_num [abs_le], by norm_num⟩ (by omega)
  · exact (hquantises.number _ 0).2 ⟨-2.4, rfl, by exact_mod_cast hnone, by omega⟩
  · exact hrefused (-2.5) (-1) ⟨by norm_num [abs_le], by norm_num⟩ (by omega)

end RoadSplice

/-
  RoadSplice.Proofs.Numeric.Exact — exact arithmetic as scalars.

  `Exact` holds the real numbers, the two infinities and the value that is not a number, with
  the conventions of machine numbers for everything outside the reals: what has no answer is
  not a number, and what is not a number is neither below, above nor equal to anything.  Zero
  has no sign here, and nothing is ever rounded.

  Every definition of the library over a scalar type runs over `Exact` as well; the theorems
  about weights and distances are about that instance.
-/
import Mathlib.Analysis.Real.Sqrt
import Mathlib.Analysis.SpecialFunctions.Complex.Arg
import Mathlib.Analysis.SpecialFunctions.Trigonometric.Inverse
import RoadSplice.Numeric.Scalar

namespace RoadSplice

/-! ## §1. The type and its operations. -/

/-- A real number, an infinity, or the value that is not a number. -/
inductive Exact where
  | real (x : ℝ)
  | infinite (negative : Bool)
  | nan

/-- The nearest whole number; of two that are as near, the one away from zero. -/
noncomputable def roundAway (x : ℝ) : ℤ := if x < 0 then -round (-x) else round x

namespace Exact

open Classical in
/-- An infinity taken as many times as a number says: the sign follows, and nothing is left to
say when the number is zero. -/
noncomputable def scaled (negative : Bool) (x : ℝ) : Exact :=
  if x = 0 then nan else infinite (negative != decide (x < 0))

def neg : Exact → Exact
  | real x => real (-x)
  | infinite n => infinite (!n)
  | nan => nan

noncomputable def add : Exact → Exact → Exact
  | real x, real y => real (x + y)
  | real _, infinite n => infinite n
  | infinite n, real _ => infinite n
  | infinite m, infinite n => if m = n then infinite m else nan
  | nan, _ => nan
  | _, nan => nan

noncomputable def mul : Exact → Exact → Exact
  | real x, real y => real (x * y)
  | real x, infinite n => scaled n x
  | infinite n, real x => scaled n x
  | infinite m, infinite n => infinite (m != n)
  | nan, _ => nan
  | _, nan => nan

open Classical in
noncomputable def div : Exact → Exact → Exact
  | real x, real y => if y = 0 then scaled false x else real (x / y)
  | real _, infinite _ => real 0
  | infinite n, real y => if y = 0 then infinite n else scaled n y
  | infinite _, infinite _ => nan
  | nan, _ => nan
  | _, nan => nan

def lt : Exact → Exact → Prop
  | real x, real y => x < y
  | real _, infinite n => n = false
  | infinite n, real _ => n = true
  | infinite m, infinite n => m = true ∧ n = false
  | nan, _ => False
  | _, nan => False

def le : Exact → Exact → Prop
  | real x, real y => x ≤ y
  | real _, infinite n => n = false
  | infinite n, real _ => n = true
  | infinite m, infinite n => m = true ∨ n = false
  | nan, _ => False
  | _, nan => False

/-- The greatest finite machine number. -/
noncomputable def greatest : ℝ := ((2 ^ 53 - 1) * 2 ^ 971 : Nat)

noncomputable def sqrt : Exact → Exact
  | real x => if x < 0 then nan else real (Real.sqrt x)
  | infinite n => if n then nan else infinite false
  | nan => nan

/-- A function on the reals; there is no answer elsewhere. -/
def ofReals (f : ℝ → ℝ) : Exact → Exact
  | real x => real (f x)
  | _ => nan

noncomputable def asin : Exact → Exact
  | real x => if -1 ≤ x ∧ x ≤ 1 then real (Real.arcsin x) else nan
  | _ => nan

/-- The share of a coordinate in a direction, beside an infinite one. -/
def besideInfinite : Exact → ℝ
  | infinite n => if n then -1 else 1
  | _ => 0

noncomputable def atan2 : Exact → Exact → Exact
  | nan, _ => nan
  | _, nan => nan
  | real y, real x => real (Complex.arg ⟨x, y⟩)
  | real y, infinite true => real (if y < 0 then -Real.pi else Real.pi)
  | y, x => real (Complex.arg ⟨besideInfinite x, besideInfinite y⟩)

noncomputable def round : Exact → Exact
  | real x => real (roundAway x)
  | infinite n => infinite n
  | nan => nan

/-- The greatest 64-bit count. -/
def greatestCount : Nat := UInt64.size - 1

noncomputable def count : Exact → Nat
  | real x => min ⌊x⌋₊ greatestCount
  | infinite n => if n then 0 else greatestCount
  | nan => 0

open Classical in
/-- **Exact numbers are scalars.** -/
noncomputable instance : Scalar Exact where
  add := add
  sub a b := add a (neg b)
  mul := mul
  div := div
  neg := neg
  lt := lt
  le := le
  beq a b := decide (a = b ∧ a ≠ nan)
  decimal m e := real (m / 10 ^ e)
  infinity := infinite false
  nan := nan
  greatest := real greatest
  pi := real Real.pi
  sqrt := sqrt
  sin := ofReals Real.sin
  cos := ofReals Real.cos
  asin := asin
  atan2 := atan2
  round := round
  count := count
  decLt _ _ := Classical.propDecidable _
  decLe _ _ := Classical.propDecidable _

/-- The real number behind an exact one; zero where there is none. -/
def val : Exact → ℝ
  | real x => x
  | _ => 0

/-- The value is a real number. -/
def IsReal (a : Exact) : Prop := ∃ x, a = real x

/-! ## §2. The operations on real numbers. -/

@[simp]
theorem val_real (x : ℝ) : (real x).val = x := rfl

@[simp]
theorem real_add (x y : ℝ) : real x + real y = real (x + y) := rfl

@[simp]
theorem real_sub (x y : ℝ) : real x - real y = real (x - y) :=
  congrArg real (sub_eq_add_neg x y).symm

@[simp]
theorem real_mul (x y : ℝ) : real x * real y = real (x * y) := rfl

@[simp]
theorem real_neg (x : ℝ) : -real x = real (-x) := rfl

theorem real_div (x : ℝ) {y : ℝ} (hy : y ≠ 0) : real x / real y = real (x / y) := by
  show div (real x) (real y) = _
  simp [div, hy]

@[simp]
theorem real_lt_real (x y : ℝ) : real x < real y ↔ x < y := Iff.rfl

@[simp]
theorem real_le_real (x y : ℝ) : real x ≤ real y ↔ x ≤ y := Iff.rfl

open Classical in
@[simp]
theorem beq_iff (a b : Exact) : (a == b) = true ↔ a = b ∧ a ≠ nan := by
  show decide (a = b ∧ a ≠ nan) = true ↔ _
  exact decide_eq_true_iff

@[simp]
theorem decimal_eq (m e : Nat) : (Scalar.decimal m e : Exact) = real (m / 10 ^ e) := rfl

@[simp]
theorem infinity_eq : (Scalar.infinity : Exact) = infinite false := rfl

@[simp]
theorem nan_eq : (Scalar.nan : Exact) = nan := rfl

@[simp]
theorem pi_eq : (Scalar.pi : Exact) = real Real.pi := rfl

@[simp]
theorem cos_real (x : ℝ) : Scalar.cos (real x) = real (Real.cos x) := rfl

@[simp]
theorem sin_real (x : ℝ) : Scalar.sin (real x) = real (Real.sin x) := rfl

/-- A whole literal is that real number. -/
theorem ofNat_eq (n : Nat) : (OfNat.ofNat n : Exact) = real n := by
  show real ((n : ℝ) / 10 ^ 0) = real n
  simp

@[simp]
theorem zero_eq : (0 : Exact) = real 0 := by simpa using ofNat_eq 0

@[simp]
theorem one_eq : (1 : Exact) = real 1 := by simpa using ofNat_eq 1

/-- A decimal literal is that real number. -/
theorem ofScientific_eq (m e : Nat) :
    (OfScientific.ofScientific m true e : Exact) = real (m / 10 ^ e) := rfl

/-! ## §3. Outside the reals. -/

@[simp]
theorem nan_add (a : Exact) : nan + a = nan := by cases a <;> rfl

@[simp]
theorem add_nan (a : Exact) : a + nan = nan := by cases a <;> rfl

@[simp]
theorem infinite_add_real (n : Bool) (x : ℝ) : infinite n + real x = infinite n := rfl

@[simp]
theorem real_add_infinite (n : Bool) (x : ℝ) : real x + infinite n = infinite n := rfl

theorem infinite_add_infinite (m n : Bool) :
    infinite m + infinite n = if m = n then infinite m else nan := rfl

@[simp]
theorem nan_sub (a : Exact) : nan - a = nan := nan_add (-a)

@[simp]
theorem real_sub_infinite (x : ℝ) (n : Bool) : real x - infinite n = infinite (!n) := rfl

@[simp]
theorem nan_mul (a : Exact) : nan * a = nan := by cases a <;> rfl

@[simp]
theorem mul_nan (a : Exact) : a * nan = nan := by cases a <;> rfl

/-- An angle without an end has no cosine. -/
theorem cos_of_not_isReal {a : Exact} (h : ¬ IsReal a) : Scalar.cos a = nan := by
  cases a with
  | real x => exact absurd ⟨x, rfl⟩ h
  | infinite n => rfl
  | nan => rfl

@[simp]
theorem not_nan_lt (a : Exact) : ¬ nan < a := by cases a <;> exact id

@[simp]
theorem not_lt_nan (a : Exact) : ¬ a < nan := by cases a <;> exact id

@[simp]
theorem not_nan_le (a : Exact) : ¬ nan ≤ a := by cases a <;> exact id

@[simp]
theorem not_le_nan (a : Exact) : ¬ a ≤ nan := by cases a <;> exact id

@[simp]
theorem real_lt_infinite (x : ℝ) (n : Bool) : real x < infinite n ↔ n = false := Iff.rfl

@[simp]
theorem infinite_lt_real (n : Bool) (x : ℝ) : infinite n < real x ↔ n = true := Iff.rfl

@[simp]
theorem real_le_infinite (x : ℝ) (n : Bool) : real x ≤ infinite n ↔ n = false := Iff.rfl

@[simp]
theorem infinite_le_real (n : Bool) (x : ℝ) : infinite n ≤ real x ↔ n = true := Iff.rfl

@[simp]
theorem infinite_lt_infinite (m n : Bool) :
    infinite m < infinite n ↔ m = true ∧ n = false := Iff.rfl

@[simp]
theorem infinite_le_infinite (m n : Bool) :
    infinite m ≤ infinite n ↔ m = true ∨ n = false := Iff.rfl

@[simp]
theorem isReal_real (x : ℝ) : IsReal (real x) := ⟨x, rfl⟩

/-- **Finite values are the real ones.** -/
@[simp]
theorem isFinite_iff (a : Exact) : Scalar.isFinite a = true ↔ IsReal a := by
  unfold Scalar.isFinite
  rw [Bool.and_eq_true, decide_eq_true_eq, decide_eq_true_eq, infinity_eq]
  show infinite true < a ∧ a < infinite false ↔ _
  cases a with
  | real x => simp
  | infinite n => cases n <;> simp [IsReal]
  | nan => simp [IsReal]

theorem isFinite_real (x : ℝ) : Scalar.isFinite (real x) = true := by simp

theorem isFinite_infinite (n : Bool) : Scalar.isFinite (infinite n) = false := by
  simp [← Bool.not_eq_true, IsReal]

@[simp]
theorem isNaN_iff (a : Exact) : Scalar.isNaN a = true ↔ a = nan := by
  unfold Scalar.isNaN
  rw [Bool.not_eq_true', ← Bool.not_eq_true, beq_iff]
  simp

@[simp]
theorem isNaN_real (x : ℝ) : Scalar.isNaN (real x) = false := by
  simp [← Bool.not_eq_true]

@[simp]
theorem isNaN_infinite (n : Bool) : Scalar.isNaN (infinite n) = false := by
  simp [← Bool.not_eq_true]

@[simp]
theorem isNaN_nan : Scalar.isNaN nan = true := (isNaN_iff nan).2 rfl

end Exact

end RoadSplice

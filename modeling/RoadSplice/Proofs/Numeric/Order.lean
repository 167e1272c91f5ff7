/-
  RoadSplice.Proofs.Numeric.Order — comparing and adding up scalars.

  `OrderedScalar` says that `Scalar.order` puts all values in one order, as it does for machine
  numbers and for exact ones.  Sums of exact numbers may be taken in any order, also where
  infinities and missing values take part, and a division by a divisor that is not at most zero
  can be taken term by term.
-/
import Mathlib.Algebra.Order.BigOperators.Group.List
import Mathlib.Tactic.FieldSimp
import Mathlib.Tactic.Linarith
import Mathlib.Tactic.Positivity
import RoadSplice.Proofs.Numeric.Exact

namespace RoadSplice

/-! ## §1. One order for all values. -/

/-- **Comparison is an order**: it tells any two values apart or equal, and it can be chained. -/
class OrderedScalar (K : Type) [Scalar K] : Prop where
  lt_asymm : ∀ a b : K, a < b → ¬ b < a
  order_total : ∀ a b : K, (Scalar.order a b).isLE = true ∨ (Scalar.order b a).isLE = true
  order_trans : ∀ a b c : K, (Scalar.order a b).isLE = true → (Scalar.order b c).isLE = true →
    (Scalar.order a c).isLE = true

namespace Exact

/-- What is not a number comes after everything else. -/
theorem order_isLE_iff (a b : Exact) : (Scalar.order a b).isLE = true ↔ a ≤ b ∨ b = nan := by
  unfold Scalar.order
  cases a with
  | real x =>
    cases b with
    | real y =>
      by_cases h : x < y
      · simp [h, h.le]
      · by_cases h' : y < x
        · simp [h, h']
        · have : x = y := le_antisymm (not_lt.1 h') (not_lt.1 h)
          subst this
          simp
    | infinite n => cases n <;> simp
    | nan => simp +decide
  | infinite m =>
    cases b with
    | real y => cases m <;> simp
    | infinite n => cases m <;> cases n <;> simp
    | nan => simp +decide
  | nan =>
    cases b with
    | real y => simp +decide
    | infinite n => simp +decide
    | nan => simp

theorem le_or_le_or_nan (a b : Exact) : (a ≤ b ∨ b = nan) ∨ (b ≤ a ∨ a = nan) := by
  cases a with
  | real x =>
    cases b with
    | real y => simpa using le_total x y
    | infinite n => cases n <;> simp
    | nan => simp
  | infinite m =>
    cases b with
    | real y => cases m <;> simp
    | infinite n => cases m <;> cases n <;> simp
    | nan => simp
  | nan => simp

/-- The order can be chained, through infinities too. -/
theorem le_of_le_of_le {a b c : Exact} (hab : a ≤ b) (hbc : b ≤ c) : a ≤ c := by
  cases b with
  | nan => exact absurd hab (not_le_nan a)
  | real y =>
    cases a <;> cases c <;> simp_all
    linarith
  | infinite n => cases n <;> cases a <;> cases c <;> simp_all

/-- No value is both below and above another one. -/
theorem not_lt_of_lt {a b : Exact} (h : a < b) : ¬ b < a := by
  cases a with
  | real x =>
    cases b with
    | real y => simpa using le_of_lt (by simpa using h)
    | infinite n => cases n <;> simp_all
    | nan => simp_all
  | infinite m =>
    cases b with
    | infinite n => cases m <;> cases n <;> simp_all
    | _ => cases m <;> simp_all
  | nan => simp_all

instance : OrderedScalar Exact where
  lt_asymm _ _ := not_lt_of_lt
  order_total a b := by
    rw [order_isLE_iff, order_isLE_iff]
    exact le_or_le_or_nan a b
  order_trans a b c hab hbc := by
    rw [order_isLE_iff] at hab hbc ⊢
    obtain hbc | rfl := hbc
    · obtain hab | rfl := hab
      · exact .inl (le_of_le_of_le hab hbc)
      · exact absurd hbc (not_nan_le c)
    · exact .inr rfl

/-- Being below can be chained, through infinities too. -/
theorem lt_of_lt_of_lt {a b c : Exact} (hab : a < b) (hbc : b < c) : a < c := by
  cases b with
  | nan => exact absurd hab (not_lt_nan a)
  | real y =>
    cases a <;> cases c <;> simp_all
    linarith
  | infinite n => cases n <;> cases a <;> cases c <;> simp_all

instance : IsTrans Exact (· < ·) := ⟨fun _ _ _ => lt_of_lt_of_lt⟩

theorem IsReal.ne_nan {a : Exact} (h : IsReal a) : a ≠ nan := by
  obtain ⟨x, rfl⟩ := h
  intro heq
  cases heq

/-- What can be compared is no missing value. -/
theorem ne_nan_of_le {a b : Exact} (h : a ≤ b) : a ≠ nan ∧ b ≠ nan := by
  constructor
  · rintro rfl
    exact not_nan_le b h
  · rintro rfl
    exact not_le_nan a h

/-- **Of two numbers** the first is below the second, or the second is at most the first. -/
theorem not_lt_iff {a b : Exact} (ha : a ≠ nan) (hb : b ≠ nan) : ¬ a < b ↔ b ≤ a := by
  cases a with
  | real x =>
    cases b with
    | real y => exact (not_lt : ¬ x < y ↔ y ≤ x)
    | infinite n => cases n <;> simp
    | nan => exact absurd rfl hb
  | infinite m =>
    cases b with
    | real y => cases m <;> simp
    | infinite n => cases m <;> cases n <;> simp
    | nan => exact absurd rfl hb
  | nan => exact absurd rfl ha

/-- Numbers are at most themselves. -/
protected theorem le_refl {a : Exact} (h : a ≠ nan) : a ≤ a :=
  (not_lt_iff h h).1 fun hlt => not_lt_of_lt hlt hlt

protected theorem le_antisymm {a b : Exact} (hab : a ≤ b) (hba : b ≤ a) : a = b := by
  cases a with
  | real x =>
    cases b with
    | real y => exact congrArg real (le_antisymm hab hba)
    | infinite n => cases n <;> simp_all
    | nan => exact absurd hab (not_le_nan _)
  | infinite m =>
    cases b with
    | real y => cases m <;> simp_all
    | infinite n => cases m <;> cases n <;> simp_all
    | nan => exact absurd hab (not_le_nan _)
  | nan => exact absurd hab (not_nan_le b)

/-- Nothing is below what it is at least. -/
theorem not_lt_of_le {a b : Exact} (h : b ≤ a) : ¬ a < b :=
  (not_lt_iff (ne_nan_of_le h).2 (ne_nan_of_le h).1).2 h

/-- What is below a number is not above it. -/
protected theorem le_of_lt {a b : Exact} (h : a < b) : a ≤ b := by
  cases a with
  | real x =>
    cases b with
    | real y => exact le_of_lt ((real_lt_real x y).1 h)
    | infinite n => exact h
    | nan => exact absurd h (not_lt_nan _)
  | infinite m =>
    cases b with
    | real y => exact h
    | infinite n => exact .inl h.1
    | nan => exact absurd h (not_lt_nan _)
  | nan => exact absurd h (not_nan_lt b)

/-- Numbers can be compared with a real number one way or the other. -/
theorem le_or_lt_real {a : Exact} (hnan : ¬ Scalar.isNaN a) (x : ℝ) :
    (a ≤ real x ∨ real x < a) ∧ (real x ≤ a ∨ a < real x) := by
  cases a with
  | real y => exact ⟨le_or_gt y x, le_or_gt x y⟩
  | infinite n => cases n <;> simp
  | nan => exact absurd isNaN_nan hnan

theorem not_isNaN_of_le {a b : Exact} (h : a ≤ b) : ¬ Scalar.isNaN a ∧ ¬ Scalar.isNaN b := by
  rw [isNaN_iff, isNaN_iff]
  exact ne_nan_of_le h

/-- **Widening downwards** lets nothing out and takes the new value in. -/
theorem least_le (a b : Exact) {x : ℝ} (h : a ≤ real x ∨ b = real x) :
    Scalar.least a b ≤ real x := by
  unfold Scalar.least
  obtain h | rfl := h
  · rw [if_neg (not_isNaN_of_le h).1]
    split
    · rename_i hlt
      exact le_of_le_of_le (Exact.le_of_lt hlt) h
    · exact h
  · split
    · exact le_refl x
    · rename_i hnan
      split
      · exact le_refl x
      · rename_i hlt
        exact (le_or_lt_real hnan x).1.resolve_right hlt

/-- **Widening upwards** lets nothing out and takes the new value in. -/
theorem le_most (a b : Exact) {x : ℝ} (h : real x ≤ a ∨ b = real x) :
    real x ≤ Scalar.most a b := by
  unfold Scalar.most
  obtain h | rfl := h
  · rw [if_neg (not_isNaN_of_le h).2]
    split
    · rename_i hlt
      exact le_of_le_of_le h (Exact.le_of_lt hlt)
    · exact h
  · split
    · exact le_refl x
    · rename_i hnan
      split
      · exact le_refl x
      · rename_i hlt
        exact (le_or_lt_real hnan x).2.resolve_right hlt

/-- A value within a range of real numbers is one of them. -/
theorem within_iff (x y : ℝ) (a : Exact) :
    Scalar.within (real x) (real y) a = true ↔ ∃ z, a = real z ∧ x ≤ z ∧ z ≤ y := by
  unfold Scalar.within
  rw [Bool.and_eq_true, decide_eq_true_eq, decide_eq_true_eq]
  cases a with
  | real z => simp
  | infinite n => cases n <;> simp
  | nan => simp

end Exact

/-! ## §2. Sums. -/

/-- The sum of some numbers, the last one added first. -/
def total {K : Type} [Scalar K] (xs : List K) : K := xs.foldr (· + ·) 0

namespace Exact

protected theorem add_comm (a b : Exact) : a + b = b + a := by
  cases a with
  | real x =>
    cases b with
    | real y => simp [add_comm x y]
    | infinite n => rfl
    | nan => rfl
  | infinite m =>
    cases b with
    | infinite n => cases m <;> cases n <;> rfl
    | _ => rfl
  | nan => cases b <;> rfl

protected theorem add_assoc (a b c : Exact) : a + b + c = a + (b + c) := by
  -- Only infinities of both signs cancel, so they are told apart; the rest computes.
  cases a with
  | real x =>
    cases b with
    | real y =>
      cases c with
      | real z => simp [add_assoc]
      | _ => rfl
    | infinite m =>
      cases c with
      | infinite n => cases m <;> cases n <;> rfl
      | _ => rfl
    | nan => simp
  | infinite l =>
    cases b with
    | real y =>
      cases c with
      | infinite n => cases l <;> cases n <;> rfl
      | _ => rfl
    | infinite m =>
      cases c with
      | infinite n => cases l <;> cases m <;> cases n <;> rfl
      | _ => cases l <;> cases m <;> rfl
    | nan => simp
  | nan => simp

protected theorem add_add_add_comm (a b c d : Exact) : a + b + (c + d) = a + c + (b + d) := by
  rw [Exact.add_assoc, ← Exact.add_assoc b, Exact.add_comm b c, Exact.add_assoc c,
    ← Exact.add_assoc]

@[simp]
protected theorem zero_add (a : Exact) : real 0 + a = a := by
  cases a with
  | real x => simp
  | _ => rfl

@[simp]
protected theorem add_zero (a : Exact) : a + real 0 = a := by
  rw [Exact.add_comm, Exact.zero_add]

@[simp]
theorem total_nil : total ([] : List Exact) = real 0 := zero_eq

@[simp]
theorem total_cons (a : Exact) (xs : List Exact) : total (a :: xs) = a + total xs := rfl

theorem total_append (xs ys : List Exact) : total (xs ++ ys) = total xs + total ys := by
  induction xs with
  | nil => simp
  | cons a xs ih => simp [ih, Exact.add_assoc]

/-- **Sums may be taken in any order.** -/
theorem total_perm {xs ys : List Exact} (h : xs.Perm ys) : total xs = total ys := by
  induction h with
  | nil => rfl
  | cons a _ ih => simp [ih]
  | swap a b xs =>
    simp only [total_cons]
    rw [← Exact.add_assoc, ← Exact.add_assoc, Exact.add_comm a b]
  | trans _ _ ih₁ ih₂ => rw [ih₁, ih₂]

theorem total_reverse (xs : List Exact) : total xs.reverse = total xs :=
  total_perm xs.reverse_perm

/-- The terms of a sum may themselves be sums. -/
theorem total_flatten (xss : List (List Exact)) : total xss.flatten = total (xss.map total) := by
  induction xss with
  | nil => rfl
  | cons xs xss ih => simp [total_append, ih]

/-- A sum of one term or more that all are the same infinity. -/
theorem total_replicate_infinite (m : Bool) (n : Nat) :
    total (List.replicate (n + 1) (infinite m)) = infinite m := by
  induction n with
  | zero => simp
  | succ n ih =>
    rw [List.replicate_succ, total_cons, ih, infinite_add_infinite]
    simp

/-- **A sum is a real number** exactly when both terms are. -/
@[simp]
theorem isReal_add (a b : Exact) : IsReal (a + b) ↔ IsReal a ∧ IsReal b := by
  cases a with
  | real x => cases b <;> simp [IsReal]
  | infinite m =>
    cases b with
    | infinite n => cases m <;> cases n <;> simp [IsReal, infinite_add_infinite]
    | _ => simp [IsReal]
  | nan => simp [IsReal]

theorem isReal_sub (a b : Exact) : IsReal (a - b) ↔ IsReal a ∧ IsReal b := by
  have hneg : IsReal (-b) ↔ IsReal b := by
    cases b with
    | real y => simp [IsReal]
    | infinite n => exact iff_of_false (by rintro ⟨x, ⟨⟩⟩) (by rintro ⟨x, ⟨⟩⟩)
    | nan => exact iff_of_false (by rintro ⟨x, ⟨⟩⟩) (by rintro ⟨x, ⟨⟩⟩)
  rw [← hneg]
  exact isReal_add a (-b)

/-- No multiple of an infinity is a number. -/
theorem not_isReal_scaled (n : Bool) (x : ℝ) : ¬ IsReal (scaled n x) := by
  unfold scaled
  split
  · rintro ⟨x, ⟨⟩⟩
  · rintro ⟨x, ⟨⟩⟩

theorem isReal_mul (a b : Exact) : IsReal (a * b) ↔ IsReal a ∧ IsReal b := by
  cases a with
  | real x =>
    cases b with
    | real y => simp
    | infinite n => exact iff_of_false (not_isReal_scaled n x) (by simp [IsReal])
    | nan => exact iff_of_false (by rintro ⟨x, ⟨⟩⟩) (by simp [IsReal])
  | infinite m =>
    cases b with
    | real y => exact iff_of_false (not_isReal_scaled m y) (by simp [IsReal])
    | infinite n => exact iff_of_false (by rintro ⟨x, ⟨⟩⟩) (by simp [IsReal])
    | nan => exact iff_of_false (by rintro ⟨x, ⟨⟩⟩) (by simp [IsReal])
  | nan => exact iff_of_false (by cases b <;> rintro ⟨x, ⟨⟩⟩) (by simp [IsReal])

theorem isReal_div_real {y : ℝ} (hy : y ≠ 0) {a : Exact} : IsReal (a / real y) ↔ IsReal a := by
  cases a with
  | real x => simp [real_div x hy]
  | infinite n =>
    have hscaled : infinite n / real y = scaled n y := if_neg hy
    rw [hscaled]
    exact iff_of_false (not_isReal_scaled n y) (by rintro ⟨x, ⟨⟩⟩)
  | nan => exact iff_of_false (by rintro ⟨x, ⟨⟩⟩) (by rintro ⟨x, ⟨⟩⟩)

theorem isReal_total (xs : List Exact) : IsReal (total xs) ↔ ∀ a ∈ xs, IsReal a := by
  induction xs with
  | nil => simp
  | cons a xs ih => simp [ih]

/-! ## §3. Signs. -/

/-- A value that is at least zero, or is not a number. -/
def Unsigned (a : Exact) : Prop := 0 ≤ a ∨ a = nan

theorem Unsigned.add {a b : Exact} (ha : Unsigned a) (hb : Unsigned b) : Unsigned (a + b) := by
  unfold Unsigned at *
  cases a with
  | real x =>
    cases b with
    | real y =>
      simp only [zero_eq, real_le_real, reduceCtorEq, or_false, real_add] at *
      exact add_nonneg ha hb
    | infinite n => simpa using hb
    | nan => simp
  | infinite m =>
    cases b with
    | real y => simpa using ha
    | infinite n => cases m <;> cases n <;> simp_all [infinite_add_infinite]
    | nan => simp
  | nan => simp

theorem Unsigned.sqrt (a : Exact) : Unsigned (Scalar.sqrt a) := by
  show Unsigned (Exact.sqrt a)
  unfold Unsigned Exact.sqrt
  cases a with
  | real x => by_cases h : x < 0 <;> simp [h, Real.sqrt_nonneg]
  | infinite n => cases n <;> simp
  | nan => simp

/-- A square is not negative. -/
theorem Unsigned.mul_self (a : Exact) : Unsigned (a * a) := by
  cases a with
  | real x =>
    left
    simpa using mul_self_nonneg x
  | infinite n =>
    left
    rw [show infinite n * infinite n = infinite false from by cases n <;> rfl]
    simp
  | nan => exact .inr rfl

/-- What is at most a number and not negative is a number. -/
theorem Unsigned.isReal_of_le {a : Exact} (h : Unsigned a) {x : ℝ} (hle : a ≤ real x) :
    IsReal a := by
  cases a with
  | real y => exact ⟨y, rfl⟩
  | infinite n =>
    unfold Unsigned at h
    cases n <;> simp_all
  | nan => exact absurd hle (not_nan_le _)

/-- A real number that is not negative keeps signs apart. -/
theorem Unsigned.real_mul {x : ℝ} (hx : 0 ≤ x) {a : Exact} (ha : Unsigned a) :
    Unsigned (real x * a) := by
  unfold Unsigned at *
  cases a with
  | real y =>
    simp only [zero_eq, real_le_real, reduceCtorEq, or_false, Exact.real_mul] at *
    exact mul_nonneg hx ha
  | infinite n =>
    show 0 ≤ scaled n x ∨ scaled n x = nan
    unfold scaled
    by_cases h : x = 0
    · simp [h]
    · simp_all [not_lt.2 hx]
  | nan => exact .inr rfl

theorem zero_le_add {a b : Exact} (ha : 0 ≤ a) (hb : 0 ≤ b) : 0 ≤ a + b := by
  cases a with
  | real x =>
    cases b with
    | real y =>
      rw [zero_eq, real_le_real] at *
      exact add_nonneg ha hb
    | infinite n => exact hb
    | nan => exact absurd hb (not_le_nan 0)
  | infinite m =>
    cases b with
    | real y => exact ha
    | infinite n => cases m <;> cases n <;> simp_all [infinite_add_infinite]
    | nan => exact absurd hb (not_le_nan 0)
  | nan => exact absurd ha (not_le_nan 0)

/-- What is added to a sum does not make it smaller. -/
theorem le_add_of_nonneg {a b : Exact} (ha : 0 ≤ a) (hb : 0 ≤ b) : a ≤ a + b := by
  cases a with
  | real x =>
    cases b with
    | real y => simpa using hb
    | infinite n => simpa using hb
    | nan => exact absurd hb (not_le_nan 0)
  | infinite m =>
    cases b with
    | real y => simp
    | infinite n => cases m <;> cases n <;> simp_all [infinite_add_infinite]
    | nan => exact absurd hb (not_le_nan 0)
  | nan => exact absurd ha (not_le_nan 0)

/-- The same added to two values keeps their order. -/
theorem add_le_add_of_nonneg {a b c : Exact} (hab : a ≤ b) (ha : 0 ≤ a) (hc : 0 ≤ c) :
    a + c ≤ b + c := by
  have hb : 0 ≤ b := le_of_le_of_le ha hab
  cases c with
  | real z =>
    cases a <;> cases b <;> simp_all
  | infinite n =>
    cases a <;> cases b <;> cases n <;> simp_all [infinite_add_infinite]
  | nan => exact absurd hc (not_le_nan 0)

/-- A sum of terms that are at least zero is at least zero. -/
theorem zero_le_total {xs : List Exact} (h : ∀ a ∈ xs, 0 ≤ a) : 0 ≤ total xs := by
  induction xs with
  | nil => simp
  | cons a xs ih =>
    rw [total_cons]
    exact zero_le_add (h a (by simp)) (ih fun b hb => h b (by simp [hb]))

/-- Leaving out terms that are not negative makes no sum greater. -/
theorem total_le_of_sublist {xs ys : List Exact} (h : xs.Sublist ys)
    (hys : ∀ a ∈ ys, ∃ c, a = real c ∧ 0 ≤ c) :
    ∃ x y, total xs = real x ∧ total ys = real y ∧ x ≤ y := by
  induction h with
  | slnil => exact ⟨0, 0, total_nil, total_nil, le_rfl⟩
  | cons a _ ih =>
    obtain ⟨c, rfl, hc⟩ := hys a (by simp)
    obtain ⟨x, y, hx, hy, hle⟩ := ih fun b hb => hys b (by simp [hb])
    exact ⟨x, c + y, hx, by simp [hy], by linarith⟩
  | cons_cons a _ ih =>
    obtain ⟨c, rfl, hc⟩ := hys a (by simp)
    obtain ⟨x, y, hx, hy, hle⟩ := ih fun b hb => hys b (by simp [hb])
    exact ⟨c + x, c + y, by simp [hx], by simp [hy], by linarith⟩

/-! ## §4. Division by a speed. -/

@[simp]
theorem nan_div (a : Exact) : nan / a = nan := by cases a <;> rfl

@[simp]
theorem div_nan (a : Exact) : a / nan = nan := by cases a <;> rfl

@[simp]
theorem real_div_infinite (x : ℝ) (n : Bool) : real x / infinite n = real 0 := rfl

@[simp]
theorem infinite_div_infinite (m n : Bool) : infinite m / infinite n = nan := rfl

theorem infinite_div_real (n : Bool) {z : ℝ} (hz : 0 < z) : infinite n / real z = infinite n := by
  show div (infinite n) (real z) = _
  simp [div, scaled, hz.ne', not_lt.2 hz.le]

/-- What is at least zero stays so when it is divided by a positive number. -/
theorem zero_le_div {a : Exact} (ha : 0 ≤ a) {z : ℝ} (hz : 0 < z) : 0 ≤ a / real z := by
  cases a with
  | real x =>
    rw [zero_eq, real_le_real] at ha
    rw [real_div x hz.ne', zero_eq, real_le_real]
    exact div_nonneg ha hz.le
  | infinite n =>
    rw [infinite_div_real n hz]
    exact ha
  | nan => exact absurd ha (not_le_nan 0)

/-- **Division term by term** by a divisor that is not at most zero. -/
theorem div_add_div {c : Exact} (hc : ¬ c ≤ 0) (a b : Exact) : a / c + b / c = (a + b) / c := by
  -- What is not at most zero is positive, infinite or no number.
  cases c with
  | real z =>
    have hz : 0 < z := by simpa using hc
    have hreal := fun x => real_div x hz.ne'
    have hinf := fun n => infinite_div_real n hz
    cases a with
    | real x => cases b <;> simp [hreal, hinf, add_div]
    | infinite m =>
      cases b with
      | infinite n => cases m <;> cases n <;> simp [hinf, infinite_add_infinite]
      | _ => simp [hreal, hinf]
    | nan => simp
  | infinite l =>
    cases a with
    | real x => cases b <;> simp
    | infinite m =>
      cases b with
      | infinite n => cases m <;> cases n <;> simp [infinite_add_infinite]
      | _ => simp
    | nan => simp
  | nan => simp

/-- A sum of one term or more is divided term by term. -/
theorem total_div {c : Exact} (hc : ¬ c ≤ 0) (xs : List Exact) (hxs : xs ≠ []) :
    total (xs.map (· / c)) = total xs / c := by
  induction xs with
  | nil => contradiction
  | cons a xs ih =>
    cases xs with
    | nil => simp
    | cons b xs =>
      have := ih (by simp)
      simp only [List.map_cons, total_cons] at this ⊢
      rw [this, div_add_div hc]

/-- A distance that is not negative takes a time that is not negative. -/
theorem zero_le_val_div {c d : Exact} (hd : 0 ≤ d) (hc : ¬ c ≤ 0) (h : IsReal (d / c)) :
    0 ≤ (d / c).val := by
  cases c with
  | real z =>
    have hz : 0 < z := by simpa using hc
    cases d with
    | real x =>
      have hx : 0 ≤ x := by simpa using hd
      rw [real_div x hz.ne']
      exact div_nonneg hx hz.le
    | infinite n => simp [infinite_div_real n hz, IsReal] at h
    | nan => simp [IsReal] at h
  | infinite l => cases d <;> simp [val]
  | nan => simp [val]

end Exact

end RoadSplice

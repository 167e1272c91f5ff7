/-
  RoadSplice.Numeric.Scalar — the numbers that coordinates, distances and weights are made of.

  All geometry, weights and searches are written over a type `K` with a `Scalar` instance, so
  that the same definitions run on machine numbers and can be reasoned about over exact ones.
  The class holds operations only.  Its comparisons are those of floating-point numbers: a
  value that is *not a number* is neither below, above nor equal to anything, itself included.
-/

namespace RoadSplice

/-! ## §1. The operations. -/

/-- Numbers with infinities and a value that is not a number. -/
class Scalar (K : Type) extends Add K, Sub K, Mul K, Div K, Neg K, LT K, LE K, BEq K where
  /-- `decimal m e` is the number nearest to `m / 10 ^ e`. -/
  decimal : Nat → Nat → K
  /-- Positive infinity. -/
  infinity : K
  /-- The value that is not a number. -/
  nan : K
  /-- The greatest finite number. -/
  greatest : K
  /-- Half the circumference of the unit circle. -/
  pi : K
  sqrt : K → K
  sin : K → K
  cos : K → K
  asin : K → K
  /-- The angle of the vector whose second coordinate is given first. -/
  atan2 : K → K → K
  /-- The nearest whole number, a half going away from zero. -/
  round : K → K
  /-- The whole part, cut to the range of a 64-bit count; what is not a number counts zero. -/
  count : K → Nat
  decLt : ∀ a b : K, Decidable (a < b)
  decLe : ∀ a b : K, Decidable (a ≤ b)

namespace Scalar

variable {K : Type} [Scalar K]

instance (a b : K) : Decidable (a < b) := decLt a b

instance (a b : K) : Decidable (a ≤ b) := decLe a b

/-- Whole literals. -/
instance (priority := low) (n : Nat) : OfNat K n := ⟨decimal n 0⟩

/-- Decimal literals. -/
instance (priority := low) : OfScientific K :=
  ⟨fun m below e => if below then decimal m e else decimal (m * Nat.pow 10 e) 0⟩

/-! ## §2. Tests. -/

/-- The one value that is not equal to itself. -/
def isNaN (x : K) : Bool := !(x == x)

/-- Neither an infinity nor without a value. -/
def isFinite (x : K) : Bool := -(infinity : K) < x && x < (infinity : K)

/-- `x` lies between the two ends, which both belong to the range. -/
def within (low high x : K) : Bool := low ≤ x && x ≤ high

/-! ## §3. Comparison. -/

/-- **One order for all values**: by size, and what is not a number after everything else.  Signs
of zero and of what is not a number are not kept: both zeros are equal here, and so are all values
that are not numbers.  A total order of machine words puts the negative zero before the positive
one, and what is not a number and negative before everything else. -/
def order (a b : K) : Ordering :=
  if a < b then .lt else if b < a then .gt else compare (isNaN a) (isNaN b)

/-- The smaller of two values; one that is not a number loses. -/
def least (a b : K) : K :=
  if isNaN a then b else if b < a then b else a

/-- The greater of two values; one that is not a number loses. -/
def most (a b : K) : K :=
  if isNaN a then b else if a < b then b else a

/-- The size of a number without its sign. -/
def abs (x : K) : K := if x < 0 then -x else x

/-- `x` moved to the nearer end of the unit interval if it lies outside. -/
def clampUnit (x : K) : K := if x < 0 then 0 else if 1 < x then 1 else x

/-- Degrees as radians. -/
def radians (degrees : K) : K := degrees * (pi / 180)

end Scalar

end RoadSplice

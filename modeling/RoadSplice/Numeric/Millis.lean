/-
  RoadSplice.Numeric.Millis — travel times in milliseconds.

  A time is a 64-bit count.  The greatest count stands for a road that cannot be used, and
  adding never goes past it.
-/
import RoadSplice.Numeric.Scalar

namespace RoadSplice

/-- A count of milliseconds. -/
structure Millis where
  count : Nat
deriving DecidableEq, Repr

namespace Millis

/-- The time of a road that cannot be used. -/
def unusable : Millis := ⟨UInt64.size - 1⟩

/-- No time. -/
def zero : Millis := ⟨0⟩

/-- **Saturating sum**: a sum past the greatest count stays there. -/
def plus (a b : Millis) : Millis := ⟨min (a.count + b.count) unusable.count⟩

theorem plus_comm (a b : Millis) : a.plus b = b.plus a := by
  simp only [plus, Nat.add_comm]

/-- Sums of several times do not depend on how they are grouped. -/
theorem plus_assoc (a b c : Millis) : (a.plus b).plus c = a.plus (b.plus c) := by
  simp only [plus, mk.injEq]
  omega

instance : Std.Associative plus := ⟨plus_assoc⟩

/-- The nearest count to a number of seconds. -/
def ofSeconds {K : Type} [Scalar K] (seconds : K) : Millis :=
  ⟨Scalar.count (Scalar.round (seconds * 1000))⟩

/-- The time in seconds. -/
def toSeconds {K : Type} [Scalar K] (m : Millis) : K := Scalar.decimal m.count 0 / 1000

end Millis

end RoadSplice

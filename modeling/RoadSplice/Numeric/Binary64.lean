/-
  RoadSplice.Numeric.Binary64 — machine numbers as scalars, and what a machine number stands for.

  `Float` carries the program.  `Binary64.parts` takes one apart into sign, significand and
  power of two, which is all that writing it exactly in decimal needs.
-/
import RoadSplice.Numeric.Scalar

namespace RoadSplice

/-! ## §1. Machine numbers are scalars. -/

instance : Scalar Float where
  decimal m e := OfScientific.ofScientific m true e
  infinity := 1.0 / 0.0
  nan := 0.0 / 0.0
  greatest := Float.ofBits 0x7fefffffffffffff
  pi := 3.14159265358979323846
  sqrt := Float.sqrt
  sin := Float.sin
  cos := Float.cos
  asin := Float.asin
  atan2 := Float.atan2
  round := Float.round
  count x := x.toUInt64.toNat
  decLt := Float.decLt
  decLe := Float.decLe

/-! ## §2. The parts of a machine number. -/

namespace Binary64

/-- What a machine number stands for. -/
inductive Parts where
  /-- Not a number. -/
  | nan
  /-- An infinity, negative or positive. -/
  | infinite (negative : Bool)
  /-- The number `significand * 2 ^ exponent`, or its negative. -/
  | finite (negative : Bool) (significand : Nat) (exponent : Int)
deriving DecidableEq, Repr

/-- Bits of the fraction field. -/
def fractionBits : Nat := 52

/-- Bits of the exponent field. -/
def exponentBits : Nat := 11

/-- The exponent that stands for numbers below the normal range. -/
def leastExponent : Int := -1074

/-- **Taking a word apart**: one sign bit, eleven exponent bits, fifty-two fraction bits. -/
def partsOfWord (word : Nat) : Parts :=
  let hidden := Nat.pow 2 fractionBits
  let fraction := word % hidden
  let biased := word / hidden % Nat.pow 2 exponentBits
  let negative := word / Nat.pow 2 (fractionBits + exponentBits) % 2 == 1
  if biased + 1 = Nat.pow 2 exponentBits then
    if fraction = 0 then .infinite negative else .nan
  else if biased = 0 then .finite negative fraction leastExponent
  else .finite negative (hidden + fraction) (leastExponent + (biased - 1 : Nat))

/-- The parts of a machine number. -/
def parts (x : Float) : Parts := partsOfWord x.toBits.toNat

end Binary64

end RoadSplice

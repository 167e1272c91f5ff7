/-
  RoadSplice.Json.Number — what a written number stands for.

  The digits are gathered in 64 bits.  Digits of the whole part that no longer fit count as
  zeros, digits of the fraction that no longer fit are left out.  The power of ten is applied
  by one multiplication or division, in steps where it lies beyond the range of a machine
  number.  A number past the greatest finite one is refused.
-/
import RoadSplice.Json.Token

namespace RoadSplice.Json.Number

/-! ## §1. Gathering digits. -/

/-- The greatest significand. -/
def significandLimit : Nat := UInt64.size - 1

/-- The greatest size of an exponent. -/
def exponentLimit : Nat := UInt32.size / 2 - 1

/-- Appends digits to a significand while they fit: the result and the number of digits left
over. -/
def gather (significand : Nat) : List Char → Nat × Nat
  | [] => (significand, 0)
  | c :: rest =>
    let next := 10 * significand + Decimal.digitValue c
    if significandLimit < next then (significand, rest.length + 1) else gather next rest

/-- The digits of a number as a significand and a power of ten. -/
def significand (n : Number) : Nat × Int :=
  let (whole, left) := gather 0 n.whole
  match n.fraction with
  | none => (whole, left)
  | some digits =>
    let (all, beyond) := gather whole digits
    (all, (left : Int) - (digits.length - beyond : Nat))

/-! ## §2. Applying the power of ten. -/

/-- A power of ten that a machine number can hold. -/
def powerOfTen (exponent : Nat) : Float := Float.ofScientific 1 false exponent

/-- The greatest such power. -/
def greatestPower : Nat := 308

/-- `x` times a power of ten; nothing if that is not finite.  Every step of the loop brings the
exponent nearer to the range. -/
def scale (x : Float) (exponent : Int) : Option Float :=
  match exponent with
  | .ofNat e =>
    if e ≤ greatestPower then
      let y := x * powerOfTen e
      if y.isInf then none else some y
    else if x == 0.0 then some x else none
  | .negSucc e => some (shrink (e + 1) x)
where
  /-- `x` divided by a power of ten. -/
  shrink (e : Nat) (x : Float) : Float :=
    if e ≤ greatestPower then x / powerOfTen e
    else if x == 0.0 then x
    else shrink (e - greatestPower) (x / powerOfTen greatestPower)
  termination_by e
  decreasing_by all_goals simp_all [greatestPower]; omega

/-- **The machine number that a written number stands for**; nothing for one out of range. -/
def toFloat? (n : Number) : Option Float := do
  let (digits, power) := n.significand
  let magnitude ← match n.exponent with
    | none => scale (UInt64.ofNat digits).toFloat power
    | some (negative, exponent) =>
      let size := Decimal.digitsValue 0 exponent
      if exponentLimit < size then
        if digits ≠ 0 ∧ !negative then none else some 0.0
      else scale (UInt64.ofNat digits).toFloat (power + (if negative then -(size : Int) else size))
  return if n.negative then -magnitude else magnitude

/-- The whole number that a written number stands for, if it is written as one of at most
`limit` without a sign. -/
def toNat? (limit : Nat) (n : Number) : Option Nat :=
  if n.negative || n.fraction.isSome || n.exponent.isSome then none
  else
    let value := Decimal.digitsValue 0 n.whole
    if value ≤ limit then some value else none

end RoadSplice.Json.Number

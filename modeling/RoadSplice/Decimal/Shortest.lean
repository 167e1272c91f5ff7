/-
  RoadSplice.Decimal.Shortest — the fewest decimal digits that read back.

  A decimal reads back as a machine number when it lies in the interval of numbers that round
  to it.  For one, two, … seventeen digits we look at the two neighbours of the value on the
  grid of that many digits; the first grid with a neighbour in the interval wins, and of two
  such neighbours the nearer, the upper one on a tie.
-/
import RoadSplice.Numeric.Binary64

namespace RoadSplice.Decimal

/-! ## §1. The digits. -/

/-- A decimal number `digits * 10 ^ exponent`. -/
structure Scientific where
  digits : Nat
  exponent : Int
deriving DecidableEq, Repr

/-- A machine number and the interval that rounds to it, over one denominator. -/
structure Interval where
  low : Nat
  value : Nat
  high : Nat
  denominator : Nat
  /-- Whether the two ends round to the value too. -/
  closed : Bool

/-- **The interval of a number** `significand * 2 ^ exponent`.  Below a power of two the
neighbour is only half as far away. -/
def Interval.around (significand : Nat) (exponent : Int) : Interval :=
  let narrow := significand = Nat.pow 2 Binary64.fractionBits ∧ Binary64.leastExponent < exponent
  let up := (exponent - 2).toNat
  let down := (2 - exponent).toNat
  { low := (4 * significand - (if narrow then 1 else 2)) * Nat.pow 2 up
    value := 4 * significand * Nat.pow 2 up
    high := (4 * significand + 2) * Nat.pow 2 up
    denominator := Nat.pow 2 down
    closed := significand % 2 = 0 }

/-- `num / den` lies in the interval. -/
def Interval.holds (i : Interval) (num den : Nat) : Bool :=
  let below := i.low * den
  let here := num * i.denominator
  let above := i.high * den
  if i.closed then below ≤ here && here ≤ above else below < here && here < above

/-- The number of decimal digits of the whole part of `num / den`, or minus the number of zeros
that follow the point when that part is zero. -/
def magnitude (num den : Nat) : Int :=
  let whole := num / den
  if whole ≠ 0 then (toString whole).length
  else zeros (Nat.log2 den + 1) num
where
  zeros : Nat → Nat → Int
    | 0, _ => 0
    | fuel + 1, num => if num * 10 < den then zeros fuel (num * 10) - 1 else 0

/-- The better neighbour of the value on the grid of the multiples of `10 ^ unit`, if one of
the two lies in the interval. -/
def neighbour (i : Interval) (unit : Int) : Option Nat :=
  let up := Nat.pow 10 unit.toNat
  let down := Nat.pow 10 (-unit).toNat
  let lower := i.value * down / (i.denominator * up)
  let upper := lower + 1
  match i.holds (lower * up) down, i.holds (upper * up) down with
  | false, false => none
  | true, false => some lower
  | false, true => some upper
  | true, true =>
    let here := 2 * (i.value * down)
    let middle := (lower + upper) * (i.denominator * up)
    some (if here < middle then lower else upper)

/-- The shortest decimal of a positive number `significand * 2 ^ exponent`. -/
def shortest (significand : Nat) (exponent : Int) : Scientific :=
  let i := Interval.around significand exponent
  let size := magnitude i.value i.denominator
  let grids := (List.range 17).map fun n => size - (n + 1 : Nat)
  match grids.findSome? fun unit => (neighbour i unit).map fun n => ⟨n, unit⟩ with
  | some s => s
  | none => ⟨i.value, 0⟩

/-! ## §2. Writing. -/

/-- A decimal written out in full, without an exponent and without idle zeros after the
point. -/
def positional (s : Scientific) : String :=
  match s.exponent with
  | .ofNat e => toString s.digits ++ String.ofList (List.replicate e '0')
  | .negSucc e =>
    let places := e + 1
    let unit := Nat.pow 10 places
    let whole := toString (s.digits / unit)
    let rest := toString (s.digits % unit)
    let padded := List.replicate (places - rest.length) '0' ++ rest.toList
    let fraction := (padded.reverse.dropWhile (· == '0')).reverse
    if fraction.isEmpty then whole else whole ++ "." ++ String.ofList fraction

/-- How many digits may stand before the point, and how many zeros behind it, before a compact
decimal takes an exponent. -/
def compactRange : Int × Int := (-4, 16)

/-- A decimal with at least one place after the point, or with an exponent where the point lies
far from the digits. -/
def compact (s : Scientific) : String :=
  let digits := toString s.digits
  let point := digits.length + s.exponent
  if point < compactRange.1 ∨ compactRange.2 < point then
    let significand := match digits.toList with
      | first :: second :: rest => first :: '.' :: second :: rest
      | short => short
    String.ofList significand ++ "e" ++ toString (point - 1)
  else if s.exponent < 0 then positional s
  else positional s ++ ".0"

/-- **The plain text of a machine number**: shortest digits, positional, signed. -/
def plain (x : Float) : String :=
  match Binary64.parts x with
  | .nan => "NaN"
  | .infinite negative => if negative then "-inf" else "inf"
  | .finite negative significand exponent =>
    let text := if significand = 0 then "0" else positional (shortest significand exponent)
    if negative then "-" ++ text else text

end RoadSplice.Decimal

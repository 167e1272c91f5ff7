/-
  RoadSplice.Decimal.Fixed — numbers written with a fixed number of decimals.

  The value of a machine number is a whole number times a power of two, so the digits come from
  one exact quotient of natural numbers, rounded to the nearest with ties to the even
  neighbour.
-/
import RoadSplice.Numeric.Binary64

namespace RoadSplice.Decimal

/-! ## §1. The nearest whole number to a quotient. -/

/-- The whole number nearest to `num / den`; of two equally near ones the even one. -/
def roundedQuotient (num den : Nat) : Nat :=
  let q := num / den
  let twice := 2 * (num % den)
  if twice < den then q
  else if den < twice then q + 1
  else if q % 2 = 0 then q else q + 1

/-- `significand * 2 ^ exponent` in units of `10 ^ -places`, rounded. -/
def scaled (places significand : Nat) (exponent : Int) : Nat :=
  match exponent with
  | .ofNat e => significand * Nat.pow 10 places * Nat.pow 2 e
  | .negSucc e => roundedQuotient (significand * Nat.pow 10 places) (Nat.pow 2 (e + 1))

/-! ## §2. Writing. -/

/-- The digits of `n` with a point before the last `places` of them. -/
def pointed (places n : Nat) : String :=
  let unit := Nat.pow 10 places
  let whole := toString (n / unit)
  if places = 0 then whole
  else
    let digits := toString (n % unit)
    whole ++ "." ++ String.ofList (List.replicate (places - digits.length) '0') ++ digits

/-- The text of a machine number with `places` decimals.  The sign is kept even where every
digit is zero. -/
def fixed (places : Nat) (x : Float) : String :=
  match Binary64.parts x with
  | .nan => "NaN"
  | .infinite negative => if negative then "-inf" else "inf"
  | .finite negative significand exponent =>
    let text := pointed places (scaled places significand exponent)
    if negative then "-" ++ text else text

end RoadSplice.Decimal

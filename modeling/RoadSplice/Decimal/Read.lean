/-
  RoadSplice.Decimal.Read — decimal text as a machine number.

  A number is an optional sign, digits with at most one point among them, and an optional
  exponent; at least one digit is needed before the exponent and after its `e`.  The words
  `inf`, `infinity` and `nan` are read in any case.  The result is the nearest machine number.
-/
import RoadSplice.Numeric.Binary64

namespace RoadSplice.Decimal

/-! ## §1. Digits. -/

/-- The value of a decimal digit. -/
def digitValue (c : Char) : Nat := c.toNat - '0'.toNat

/-- The value of a run of digits that continues `start`. -/
def digitsValue (start : Nat) (digits : List Char) : Nat :=
  digits.foldl (fun n c => 10 * n + digitValue c) start

/-- The leading digits of a text and what follows them. -/
def spanDigits (text : List Char) : List Char × List Char := text.span Char.isDigit

/-- A leading sign, as whether it is a minus, and what follows it. -/
def spanSign (text : List Char) : Bool × List Char :=
  match text with
  | '-' :: rest => (true, rest)
  | '+' :: rest => (false, rest)
  | _ => (false, text)

/-! ## §2. The nearest machine number. -/

/-- Beyond this power of ten every number overflows or vanishes. -/
def powerLimit : Int := 400

/-- The machine number nearest to `significand * 10 ^ exponent`. -/
def nearest (significand : Nat) (exponent : Int) : Float :=
  let size := (toString significand).length + exponent
  if significand = 0 ∨ size < -powerLimit then 0.0
  else if powerLimit < size then 1.0 / 0.0
  else match exponent with
    | .ofNat e => Float.ofScientific significand false e
    | .negSucc e => Float.ofScientific significand true (e + 1)

/-! ## §3. Reading. -/

/-- An exponent after its `e`; the whole rest of the text has to belong to it. -/
def readExponent? (text : List Char) : Option Int :=
  let (negative, rest) := spanSign text
  let (digits, rest) := spanDigits rest
  if digits.isEmpty || !rest.isEmpty then none
  else
    let size : Int := digitsValue 0 digits
    some (if negative then -size else size)

/-- A number without its sign. -/
def readUnsigned? (text : List Char) : Option Float :=
  let word := text.map Char.toLower
  if word = "inf".toList ∨ word = "infinity".toList then some (1.0 / 0.0)
  else if word = "nan".toList then some (0.0 / 0.0)
  else
    let (whole, rest) := spanDigits text
    let (fraction, rest) := match rest with
      | '.' :: rest => spanDigits rest
      | _ => ([], rest)
    if whole.isEmpty && fraction.isEmpty then none
    else
      let significand := digitsValue (digitsValue 0 whole) fraction
      match rest with
      | [] => some (nearest significand (-fraction.length))
      | e :: rest =>
        if e = 'e' ∨ e = 'E' then
          (readExponent? rest).map fun power => nearest significand (power - fraction.length)
        else none

/-- **Reading a number**: the whole text has to be one. -/
def read? (text : String) : Option Float :=
  let (negative, rest) := spanSign text.toList
  (readUnsigned? rest).map fun x => if negative then -x else x

end RoadSplice.Decimal

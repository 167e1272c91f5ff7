/-
  RoadSplice.Json.Token — the tokens of a JSON text.

  A text is cut into brackets, separators, words, numbers and strings.  Numbers keep their
  digits, because what a number stands for depends on where it is used; strings keep what
  their escapes spell, if they spell text at all.
-/
import RoadSplice.Decimal.Read

namespace RoadSplice.Json

/-! ## §1. Numbers and strings. -/

/-- A number as written. -/
structure Number where
  negative : Bool
  whole : List Char
  /-- The digits after the point, if there is one. -/
  fraction : Option (List Char)
  /-- Whether the exponent is negative, and its digits. -/
  exponent : Option (Bool × List Char)
deriving DecidableEq, Repr

/-- An element of a string: a character, or a 16-bit unit written as an escape. -/
inductive Unit16 where
  | char (c : Char)
  | code (unit : Nat)
deriving DecidableEq, Repr

/-- The first of two units that stand for one character. -/
def isHighSurrogate (unit : Nat) : Bool := 0xd800 ≤ unit && unit < 0xdc00

/-- The second of two units that stand for one character. -/
def isLowSurrogate (unit : Nat) : Bool := 0xdc00 ≤ unit && unit < 0xe000

/-- The character that two surrogates stand for. -/
def joinSurrogates (high low : Nat) : Char :=
  Char.ofNat (0x10000 + (high - 0xd800) * 0x400 + (low - 0xdc00))

/-- **The text that a string spells**; none if a surrogate stands alone. -/
def spell : List Unit16 → Option (List Char)
  | [] => some []
  | .char c :: rest => (spell rest).map (c :: ·)
  | .code high :: .code low :: rest =>
    if isHighSurrogate high then
      if isLowSurrogate low then (spell rest).map (joinSurrogates high low :: ·) else none
    else if isLowSurrogate high then none
    else (spell (.code low :: rest)).map (Char.ofNat high :: ·)
  | .code unit :: rest =>
    if isHighSurrogate unit || isLowSurrogate unit then none
    else (spell rest).map (Char.ofNat unit :: ·)

/-- A token.  A string is the text that it spells, if it spells one. -/
inductive Token where
  | openArray
  | closeArray
  | openObject
  | closeObject
  | comma
  | colon
  | null
  | bool (value : Bool)
  | number (value : Number)
  | string (text : Option String)
deriving DecidableEq, Repr

/-! ## §2. Scanning. -/

/-- The character that a one-letter escape stands for. -/
def shortEscape? : Char → Option Char
  | '"' => some '"'
  | '\\' => some '\\'
  | '/' => some '/'
  | 'b' => some '\x08'
  | 'f' => some '\x0c'
  | 'n' => some '\n'
  | 'r' => some '\r'
  | 't' => some '\t'
  | _ => none

def hexDigit? (c : Char) : Option Nat :=
  if c.isDigit then some (c.toNat - '0'.toNat)
  else if 'a' ≤ c ∧ c ≤ 'f' then some (c.toNat - 'a'.toNat + 10)
  else if 'A' ≤ c ∧ c ≤ 'F' then some (c.toNat - 'A'.toNat + 10)
  else none

/-- The value of four hexadecimal digits. -/
def hexUnit? (a b c d : Char) : Option Nat := do
  return ((← hexDigit? a) * 16 + (← hexDigit? b)) * 256 + (← hexDigit? c) * 16 + (← hexDigit? d)

/-- Scans a string after its opening quote: its units, last first, and what follows it.
Control characters may not stand in a string. -/
def scanString : List Char → List Unit16 → Option (List Unit16 × List Char)
  | [], _ => none
  | '"' :: rest, units => some (units, rest)
  | '\\' :: 'u' :: a :: b :: c :: d :: rest, units =>
    match hexUnit? a b c d with
    | some unit => scanString rest (.code unit :: units)
    | none => none
  | '\\' :: c :: rest, units =>
    match shortEscape? c with
    | some c => scanString rest (.char c :: units)
    | none => none
  | c :: rest, units =>
    if c.toNat < 0x20 || c == '\\' then none else scanString rest (.char c :: units)

/-- Scans an exponent after its `e`. -/
def scanExponent? (text : List Char) : Option ((Bool × List Char) × List Char) :=
  let (negative, rest) := Decimal.spanSign text
  let (digits, rest) := Decimal.spanDigits rest
  if digits.isEmpty then none else some ((negative, digits), rest)

/-- Scans a number after its sign: a whole part without idle zeros, then a fraction and an
exponent, if they are there, with at least one digit each. -/
def scanNumber? (negative : Bool) (text : List Char) : Option (Number × List Char) := do
  let (whole, rest) := Decimal.spanDigits text
  if whole.isEmpty || (whole.head? == some '0' && 1 < whole.length) then none
  let (fraction, rest) ← match rest with
    | '.' :: rest =>
      let (digits, rest) := Decimal.spanDigits rest
      if digits.isEmpty then none else some (some digits, rest)
    | _ => some (none, rest)
  match rest with
  | 'e' :: rest | 'E' :: rest =>
    let (exponent, rest) ← scanExponent? rest
    return (⟨negative, whole, fraction, some exponent⟩, rest)
  | _ => return (⟨negative, whole, fraction, none⟩, rest)

/-- The blanks of JSON. -/
def isBlank (c : Char) : Bool := c == ' ' || c == '\t' || c == '\n' || c == '\r'

/-- One token at the start of a text that does not start with a blank. -/
def scanToken? : List Char → Option (Token × List Char)
  | '[' :: rest => some (.openArray, rest)
  | ']' :: rest => some (.closeArray, rest)
  | '\x7b' :: rest => some (.openObject, rest)
  | '\x7d' :: rest => some (.closeObject, rest)
  | ',' :: rest => some (.comma, rest)
  | ':' :: rest => some (.colon, rest)
  | 'n' :: 'u' :: 'l' :: 'l' :: rest => some (.null, rest)
  | 't' :: 'r' :: 'u' :: 'e' :: rest => some (.bool true, rest)
  | 'f' :: 'a' :: 'l' :: 's' :: 'e' :: rest => some (.bool false, rest)
  | '"' :: rest =>
    (scanString rest []).map fun (units, rest) =>
      (.string ((spell units.reverse).map String.ofList), rest)
  | '-' :: rest => (scanNumber? true rest).map fun (n, rest) => (.number n, rest)
  | text => (scanNumber? false text).map fun (n, rest) => (.number n, rest)

/-- Scans with `fuel` steps at hand; every step takes at least one character. -/
def scan : Nat → List Char → List Token → Option (List Token)
  | _, [], tokens => some tokens.reverse
  | 0, _, _ => none
  | fuel + 1, c :: rest, tokens =>
    if isBlank c then scan fuel rest tokens
    else match scanToken? (c :: rest) with
      | some (token, rest) => scan fuel rest (token :: tokens)
      | none => none

/-- **The tokens of a text**, or nothing if some part of it is not a token. -/
def tokens? (text : List Char) : Option (List Token) := scan text.length text []

end RoadSplice.Json

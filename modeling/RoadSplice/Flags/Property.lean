/-
  RoadSplice.Flags.Property — typed properties packed into one 64-bit word per road.

  Every property owns a range of bits, and a second range for the opposite direction if it
  tells directions apart.  A property of a single direction uses the same bits both ways.
-/
import RoadSplice.Flags.RoadClass

namespace RoadSplice

/-- The flag word of a road. -/
abbrev Word := BitVec 64

/-! ## §1. Whole numbers. -/

/-- A whole number in a range of bits. -/
structure IntProperty where
  name : String
  bits : Nat
  forwardShift : Nat
  backwardShift : Option Nat
deriving DecidableEq, Repr

namespace IntProperty

variable {K : Type}

def isTwoDirectional (p : IntProperty) : Bool := p.backwardShift.isSome

/-- The word whose low bits, as many as the property has, are set. -/
def mask (p : IntProperty) : Word :=
  if 64 ≤ p.bits then BitVec.allOnes 64 else (1#64 <<< p.bits) - 1#64

/-- The greatest value that fits. -/
def maxValue (p : IntProperty) : Nat := p.mask.toNat

/-- Where the bits of a direction begin. -/
def shift (p : IntProperty) (reverse : Bool) : Nat :=
  if reverse then p.backwardShift.getD p.forwardShift else p.forwardShift

/-- The value stored for a direction. -/
def read (p : IntProperty) (reverse : Bool) (word : Word) : Nat :=
  ((word >>> p.shift reverse) &&& p.mask).toNat

/-- **Writing** replaces the bits of one direction and keeps all others; a value that does not
fit is cut to its low bits. -/
def write (p : IntProperty) (reverse : Bool) (word : Word) (value : Nat) : Word :=
  (word &&& ~~~(p.mask <<< p.shift reverse))
    ||| ((BitVec.ofNat 64 value &&& p.mask) <<< p.shift reverse)

/-- Refuses a value that does not fit. -/
def check [Scalar K] (p : IntProperty) (value : Nat) : Except (Error K) Unit :=
  if p.maxValue < value then
    .error (.propertyValueOutOfRange p.name (Scalar.decimal value 0) (Scalar.decimal p.maxValue 0))
  else .ok ()

/-- Refuses a property of a single direction. -/
def requireTwoDirections (p : IntProperty) : Except (Error K) Unit :=
  if p.isTwoDirectional then .ok () else .error (.singleDirectionProperty p.name)

end IntProperty

/-! ## §2. Yes or no. -/

/-- A yes or no in a single bit. -/
structure BoolProperty where
  int : IntProperty
deriving DecidableEq, Repr

namespace BoolProperty

def read (p : BoolProperty) (reverse : Bool) (word : Word) : Bool := p.int.read reverse word != 0

def write (p : BoolProperty) (reverse : Bool) (word : Word) (value : Bool) : Word :=
  p.int.write reverse word value.toNat

end BoolProperty

/-! ## §3. Decimals. -/

/-- A decimal, stored as a whole number of steps of size `factor`. -/
structure DecimalProperty (K : Type) where
  int : IntProperty
  factor : K
deriving Repr

namespace DecimalProperty

variable {K : Type} [Scalar K]

open Scalar

def maxValue (p : DecimalProperty K) : K := decimal p.int.maxValue 0 * p.factor

def read (p : DecimalProperty K) (reverse : Bool) (word : Word) : K :=
  decimal (p.int.read reverse word) 0 * p.factor

/-- **Quantisation**: the nearest number of steps, refused when it is negative, too great or no
number. -/
def toRaw (p : DecimalProperty K) (value : K) : Except (Error K) Nat :=
  let raw := round (value / p.factor)
  if !isFinite raw || raw < 0 || decimal p.int.maxValue 0 < raw then
    .error (.propertyValueOutOfRange p.int.name value p.maxValue)
  else .ok (count raw)

end DecimalProperty

/-! ## §4. Listed values. -/

/-- A value of a listed type, stored as its place in the list. -/
structure EnumProperty (α : Type) where
  int : IntProperty
deriving DecidableEq, Repr

namespace EnumProperty

variable {α : Type} [Enumerated α]

def read (p : EnumProperty α) (reverse : Bool) (word : Word) : α :=
  Enumerated.ofOrdinal (p.int.read reverse word)

def write [DecidableEq α] (p : EnumProperty α) (reverse : Bool) (word : Word) (value : α) : Word :=
  p.int.write reverse word (Enumerated.ordinal value)

end EnumProperty

/-! ## §5. Any property. -/

/-- A property of any type. -/
inductive Property (K : Type) where
  | int (p : IntProperty)
  | bool (p : BoolProperty)
  | decimal (p : DecimalProperty K)
  | roadClass (p : EnumProperty RoadClass)
deriving Repr

namespace Property

variable {K : Type}

/-- The bits behind a property. -/
def bits : Property K → IntProperty
  | int p => p
  | bool p => p.int
  | decimal p => p.int
  | roadClass p => p.int

/-- The type of the values of a property. -/
abbrev Value : Property K → Type
  | int _ => Nat
  | bool _ => Bool
  | decimal _ => K
  | roadClass _ => RoadClass

variable [Scalar K]

def read (p : Property K) (reverse : Bool) (word : Word) : p.Value :=
  match p with
  | int p => p.read reverse word
  | bool p => p.read reverse word
  | decimal p => p.read reverse word
  | roadClass p => p.read reverse word

/-- The number that stands for a value.  Only a decimal may have none. -/
def raw (p : Property K) (value : p.Value) : Except (Error K) Nat :=
  match p, value with
  | int _, n => .ok n
  | bool _, b => .ok b.toNat
  | decimal p, x => p.toRaw x
  | roadClass _, c => .ok (Enumerated.ordinal c)

/-- **Encoding**: the number that stands for a value, if that is acceptable.  Whole numbers are
checked here, decimals where they are rounded; the others always fit. -/
def encode (p : Property K) (value : p.Value) : Except (Error K) Nat :=
  match p, value with
  | int p, n => (p.check n).map fun _ => n
  | p, v => p.raw v

end Property

end RoadSplice

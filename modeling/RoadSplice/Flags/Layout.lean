/-
  RoadSplice.Flags.Layout — handing out the bits of the flag word.

  A layout remembers how many of the 64 bits are taken.  A registration answers with the new
  property and the layout after it; one that fails answers with the failure alone, so that the
  layout before it stays in force.
-/
import RoadSplice.Flags.Property

namespace RoadSplice

/-- How many bits of the flag word are taken, from the lowest on. -/
structure FlagLayout where
  usedBits : Nat
deriving DecidableEq, Repr

/-- What a property to be registered holds. -/
inductive PropertyType (K : Type) where
  | int (bits : Nat)
  | bool
  | decimal (bits : Nat) (factor : K)
  | roadClass
deriving Repr

namespace FlagLayout

variable {K : Type}

/-- The number of bits in a flag word. -/
def wordBits : Nat := 64

/-- The layout of a word without properties. -/
def empty : FlagLayout := ⟨0⟩

def available (l : FlagLayout) : Nat := wordBits - l.usedBits

/-- Takes the next `bits` bits: the first of them and the layout after it. -/
def allocate (l : FlagLayout) (name : String) (bits : Nat) :
    Except (Error K) (Nat × FlagLayout) :=
  if bits = 0 ∨ l.available < bits then .error (.flagLayoutFull name bits l.available)
  else .ok (l.usedBits, ⟨l.usedBits + bits⟩)

/-- The number of bits for both directions, as a 32-bit count. -/
def bothDirections (bits : Nat) : Nat := 2 * bits % UInt32.size

/-- **Registers a whole number.**  The need for both directions is checked before anything is
taken. -/
def addInt (l : FlagLayout) (name : String) (bits : Nat) (twoDirections : Bool) :
    Except (Error K) (IntProperty × FlagLayout) := do
  let needed := if twoDirections then bothDirections bits else bits
  if l.available < needed then throw (.flagLayoutFull name needed l.available)
  let (forward, l) ← l.allocate name bits
  if twoDirections then
    let (backward, l) ← l.allocate name bits
    return (⟨name, bits, forward, some backward⟩, l)
  else return (⟨name, bits, forward, none⟩, l)

def addBool (l : FlagLayout) (name : String) (twoDirections : Bool) :
    Except (Error K) (BoolProperty × FlagLayout) := do
  let (int, l) ← l.addInt name 1 twoDirections
  return (⟨int⟩, l)

def addDecimal (l : FlagLayout) (name : String) (bits : Nat) (factor : K)
    (twoDirections : Bool) : Except (Error K) (DecimalProperty K × FlagLayout) := do
  let (int, l) ← l.addInt name bits twoDirections
  return (⟨int, factor⟩, l)

/-- The least number of bits, at least one, that tells `values` values apart. -/
def bitsFor (values : Nat) : Nat := Nat.log2 (max values 2 - 1) + 1

def addEnum (l : FlagLayout) (α : Type) [Enumerated α] (name : String) (twoDirections : Bool) :
    Except (Error K) (EnumProperty α × FlagLayout) := do
  let (int, l) ← l.addInt name (bitsFor (Enumerated.values : List α).length) twoDirections
  return (⟨int⟩, l)

/-- **Registers a property of any type.** -/
def add (l : FlagLayout) (name : String) (type : PropertyType K) (twoDirections : Bool) :
    Except (Error K) (Property K × FlagLayout) :=
  match type with
  | .int bits => (l.addInt name bits twoDirections).map fun (p, l) => (.int p, l)
  | .bool => (l.addBool name twoDirections).map fun (p, l) => (.bool p, l)
  | .decimal bits factor =>
    (l.addDecimal name bits factor twoDirections).map fun (p, l) => (.decimal p, l)
  | .roadClass => (l.addEnum RoadClass name twoDirections).map fun (p, l) => (.roadClass p, l)

end FlagLayout

end RoadSplice

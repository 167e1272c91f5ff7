/-
  RoadSplice.Proofs.Flags.Values — values of properties and the numbers that stand for them.

  A property stores a number for a value and makes a value of the number that it reads.  Every
  value comes back, a decimal rounded to whole steps, as long as the number fits into the bits of
  the property.  Whole numbers are refused otherwise, and the listed types have bits enough; the
  number of a decimal is compared with the greatest one only after that has been rounded to a
  number of the scalar type, so that one which does not fit may pass.
-/
import RoadSplice.Proofs.Flags.Bits
import RoadSplice.Proofs.Results

namespace RoadSplice

/-! ## §1. Listed values and decimals. -/

theorem RoadClass.ofOrdinal_ordinal (c : RoadClass) :
    Enumerated.ofOrdinal (Enumerated.ordinal c) = c := by
  cases c <;> decide

theorem RoadClass.ordinal_lt (c : RoadClass) : Enumerated.ordinal c < 2 ^ 4 := by
  cases c <;> decide

/-- The number of steps of a decimal that is not refused. -/
theorem DecimalProperty.toRaw_ok {K : Type} [Scalar K] {p : DecimalProperty K} {x : K} {n : Nat}
    (h : p.toRaw x = .ok n) : n = Scalar.count (Scalar.round (x / p.factor)) := by
  unfold toRaw at h
  extract_lets raw at h
  split at h
  · cases h
  · exact (Except.ok.inj h).symm

/-- A whole number that is not refused fits. -/
theorem IntProperty.le_of_check {K : Type} [Scalar K] {p : IntProperty} {n : Nat} {u : Unit}
    (h : p.check (K := K) n = .ok u) : n ≤ p.maxValue := by
  unfold check at h
  split at h
  · cases h
  · rename_i hle
    exact Nat.le_of_not_lt hle

namespace Property

variable {K : Type} [Scalar K]

/-! ## §2. From a number to a value. -/

/-- The value that a number stands for. -/
def decode (p : Property K) (n : Nat) : p.Value :=
  match p with
  | int _ => n
  | bool _ => n != 0
  | decimal p => Scalar.decimal n 0 * p.factor
  | roadClass _ => Enumerated.ofOrdinal n

/-- Reading takes the number out of the word and decodes it. -/
theorem read_eq_decode (p : Property K) (d : Bool) (w : Word) :
    p.read d w = p.decode (p.bits.read d w) := by
  cases p <;> rfl

/-- **A value in whole steps**: a decimal is rounded to them, any other value is its own. -/
def quantised (p : Property K) (x : p.Value) : p.Value :=
  match p, x with
  | decimal p, x => Scalar.decimal (Scalar.count (Scalar.round (x / p.factor))) 0 * p.factor
  | int _, x => x
  | bool _, x => x
  | roadClass _, x => x

/-- **A value comes back** from the number that stands for it. -/
theorem decode_encode {p : Property K} {x : p.Value} {n : Nat} (h : p.encode x = .ok n) :
    p.decode n = p.quantised x := by
  cases p with
  | int p =>
    obtain ⟨u, -, rfl⟩ := except_map.1 h
    rfl
  | bool p =>
    obtain rfl := Except.ok.inj h
    cases x <;> rfl
  | decimal p =>
    obtain rfl := DecimalProperty.toRaw_ok h
    rfl
  | roadClass p =>
    obtain rfl := Except.ok.inj h
    exact RoadClass.ofOrdinal_ordinal x

/-! ## §3. Numbers that fit. -/

/-- The property has bits for all values of its type, where the type lists them. -/
def Roomy {K : Type} : Property K → Prop
  | int _ => True
  | bool p => 1 ≤ p.int.bits
  | decimal _ => True
  | roadClass p => 4 ≤ p.int.bits

/-- **A value is kept**: it is no decimal, or the number that stands for it fits. -/
def Keeps (p : Property K) (x : p.Value) : Prop :=
  match p, x with
  | decimal p, x => ∀ n, p.toRaw x = .ok n → n ≤ p.int.maxValue
  | _, _ => True

/-- The number of a value that is kept has no more bits than the property. -/
theorem le_maxValue_of_encode {p : Property K} {x : p.Value} {n : Nat} (hbits : p.bits.bits ≤ 64)
    (hroomy : p.Roomy) (hkeeps : p.Keeps x) (h : p.encode x = .ok n) : n ≤ p.bits.maxValue := by
  cases p with
  | int p =>
    obtain ⟨u, hcheck, rfl⟩ := except_map.1 h
    exact IntProperty.le_of_check hcheck
  | bool p =>
    obtain rfl := Except.ok.inj h
    have hpow : 2 ^ 1 ≤ 2 ^ p.int.bits := Nat.pow_le_pow_right (by decide) hroomy
    refine (IntProperty.le_maxValue_iff hbits).2 ?_
    have hlt := Bool.toNat_lt x
    exact Nat.lt_of_lt_of_le hlt hpow
  | decimal p => exact hkeeps n h
  | roadClass p =>
    obtain rfl := Except.ok.inj h
    have hpow : 2 ^ 4 ≤ 2 ^ p.int.bits := Nat.pow_le_pow_right (by decide) hroomy
    exact (IntProperty.le_maxValue_iff hbits).2 (Nat.lt_of_lt_of_le (RoadClass.ordinal_lt x) hpow)

end Property

end RoadSplice

/-
  RoadSplice.Proofs.Flags.Bits — the bits of a flag word that a property reads and writes.

  A property owns as many bits as it has, from the place where its direction begins.  Writing sets
  these bits to those of the value and leaves every other bit as it is; reading takes them out
  again.  So a value that fits is read back, and a property whose bits lie elsewhere reads what it
  read before.
-/
import Mathlib.Algebra.Group.Nat.Defs
import Mathlib.Tactic.Common
import RoadSplice.Flags.Layout

namespace RoadSplice.IntProperty

variable {p q : IntProperty} {d e : Bool} {w : Word} {n i : Nat}

/-! ## §1. The mask. -/

/-- The mask has the lowest bits set, as many as the property has. -/
theorem toNat_mask (p : IntProperty) : p.mask.toNat = 2 ^ min p.bits 64 - 1 := by
  unfold mask
  by_cases h : 64 ≤ p.bits
  · rw [if_pos h, Nat.min_eq_right h, BitVec.toNat_allOnes]
  · have hbits : p.bits < 64 := Nat.lt_of_not_le h
    have hlt : 2 ^ p.bits < 2 ^ 64 := Nat.pow_lt_pow_right (by decide) hbits
    have hpos : 0 < 2 ^ p.bits := Nat.two_pow_pos p.bits
    have hone : (1#64 <<< p.bits).toNat = 2 ^ p.bits := by
      rw [BitVec.toNat_shiftLeft, BitVec.toNat_ofNat, Nat.shiftLeft_eq]
      rw [Nat.mod_eq_of_lt (by decide : 1 < 2 ^ 64), Nat.one_mul, Nat.mod_eq_of_lt hlt]
    rw [if_neg h, Nat.min_eq_left (Nat.le_of_lt hbits), BitVec.toNat_sub_of_le, hone]
    · rfl
    · rw [BitVec.le_def, hone]
      exact hpos

theorem maxValue_eq (p : IntProperty) : p.maxValue = 2 ^ min p.bits 64 - 1 := toNat_mask p

/-- A value fits when it has no more bits than the property. -/
theorem le_maxValue_iff (hbits : p.bits ≤ 64) : n ≤ p.maxValue ↔ n < 2 ^ p.bits := by
  have hpos : 0 < 2 ^ p.bits := Nat.two_pow_pos p.bits
  rw [maxValue_eq, Nat.min_eq_left hbits]
  omega

theorem getLsbD_mask (p : IntProperty) (i : Nat) :
    p.mask.getLsbD i = (decide (i < p.bits) && decide (i < 64)) := by
  rw [BitVec.getLsbD, toNat_mask, Nat.testBit_two_pow_sub_one, ← Bool.decide_and]
  exact decide_eq_decide.2 Nat.lt_min

/-! ## §2. Single bits. -/

/-- **A bit of a property** in a direction. -/
def Owns (p : IntProperty) (d : Bool) (i : Nat) : Prop := p.shift d ≤ i ∧ i < p.shift d + p.bits

instance (p : IntProperty) (d : Bool) (i : Nat) : Decidable (p.Owns d i) :=
  inferInstanceAs (Decidable (_ ∧ _))

/-- **Writing** gives the bits of the property those of the value, and keeps all others. -/
theorem getLsbD_write (p : IntProperty) (d : Bool) (w : Word) (n : Nat) (hi : i < 64) :
    (p.write d w n).getLsbD i =
      if p.Owns d i then n.testBit (i - p.shift d) else w.getLsbD i := by
  have hin : i - p.shift d < 64 := Nat.lt_of_le_of_lt (Nat.sub_le i _) hi
  unfold write
  rw [BitVec.getLsbD_or, BitVec.getLsbD_and, BitVec.getLsbD_not, BitVec.getLsbD_shiftLeft,
    BitVec.getLsbD_shiftLeft, BitVec.getLsbD_and, getLsbD_mask, BitVec.getLsbD_ofNat]
  by_cases hbefore : i < p.shift d
  · -- Below the property nothing is cleared and nothing is set.
    have howns : ¬ p.Owns d i := fun h => Nat.not_le.2 hbefore h.1
    rw [if_neg howns]
    simp [hi, hbefore]
  · by_cases hbehind : i - p.shift d < p.bits
    · have howns : p.Owns d i := ⟨by omega, by omega⟩
      rw [if_pos howns]
      simp [hi, hbefore, hbehind, hin]
    · have howns : ¬ p.Owns d i := fun h => hbehind (by have := h.1; have := h.2; omega)
      rw [if_neg howns]
      simp [hi, hbehind]

/-- **Reading** takes the bits of the property out of the word. -/
theorem testBit_read (p : IntProperty) (d : Bool) (w : Word) (i : Nat) :
    (p.read d w).testBit i = (decide (i < p.bits) && w.getLsbD (p.shift d + i)) := by
  have hbit : (p.read d w).testBit i = ((w >>> p.shift d) &&& p.mask).getLsbD i := rfl
  rw [hbit, BitVec.getLsbD_and, BitVec.getLsbD_ushiftRight, getLsbD_mask]
  by_cases hi : i < 64
  · simp [hi, Bool.and_comm]
  · -- A word has no bits there.
    have hnone : w.getLsbD (p.shift d + i) = false := BitVec.getLsbD_of_ge w _ (by omega)
    simp [hnone]

/-! ## §3. What is read after a write. -/

/-- **What has been written is read back**, cut to the bits of the property. -/
theorem read_write_self (hroom : p.shift d + p.bits ≤ 64) (w : Word) (n : Nat) :
    p.read d (p.write d w n) = n % 2 ^ p.bits := by
  refine Nat.eq_of_testBit_eq fun i => ?_
  rw [testBit_read, Nat.testBit_mod_two_pow]
  by_cases hi : i < p.bits
  · have howns : p.Owns d (p.shift d + i) := ⟨by omega, by omega⟩
    rw [getLsbD_write p d w n (by omega), if_pos howns, Nat.add_sub_cancel_left]
  · rw [decide_eq_false hi, Bool.false_and, Bool.false_and]

/-- **Two properties, each in a direction, are apart**: the bits of one end before those of the
other one begin. -/
def Apart (p : IntProperty) (d : Bool) (q : IntProperty) (e : Bool) : Prop :=
  p.shift d + p.bits ≤ q.shift e ∨ q.shift e + q.bits ≤ p.shift d

theorem Apart.symm (h : Apart p d q e) : Apart q e p d := Or.symm h

theorem Apart.not_owns (h : Apart p d q e) (hi : p.Owns d i) : ¬ q.Owns e i := by
  unfold Apart at h
  unfold Owns at hi ⊢
  omega

/-- **A property that is apart** reads what it read before. -/
theorem read_write_of_apart (h : Apart p d q e) (w : Word) (n : Nat) :
    q.read e (p.write d w n) = q.read e w := by
  refine Nat.eq_of_testBit_eq fun i => ?_
  rw [testBit_read, testBit_read]
  by_cases hi : i < q.bits
  · by_cases hin : q.shift e + i < 64
    · have hbit : ¬ p.Owns d (q.shift e + i) := fun howns =>
        h.not_owns howns ⟨by omega, by omega⟩
      rw [getLsbD_write p d w n hin, if_neg hbit]
    · rw [BitVec.getLsbD_of_ge _ _ (by omega), BitVec.getLsbD_of_ge _ _ (by omega)]
  · rw [decide_eq_false hi, Bool.false_and, Bool.false_and]

end RoadSplice.IntProperty

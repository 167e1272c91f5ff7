/-
  RoadSplice.Proofs.Flags.Layout — properties of one layout are apart.

  A registration that succeeds takes the next free bits, for both directions if the property tells
  them apart, and there are always enough of them.  So the bits of all properties that a layout has
  handed out, and of both directions of each, are apart; and every value that a property accepts has
  a number that fits into its bits, decimals excepted, whose number is compared after rounding.
-/
import Mathlib.Data.List.Pairwise
import RoadSplice.Proofs.Flags.Values

namespace RoadSplice

variable {K : Type}

/-! ## §1. Where the bits lie. -/

namespace IntProperty

/-- How many bits a property takes in all. -/
def width (p : IntProperty) : Nat := if p.isTwoDirectional then 2 * p.bits else p.bits

/-- **The direction that counts** for a property: one that does not tell directions apart has the
same bits both ways. -/
def side (p : IntProperty) (d : Bool) : Bool := p.isTwoDirectional && d

theorem shift_side (p : IntProperty) (d : Bool) : p.shift (p.side d) = p.shift d := by
  unfold side shift isTwoDirectional
  cases d with
  | false => simp
  | true => cases p.backwardShift <;> simp

/-- What is read depends on the direction that counts. -/
theorem read_eq_of_side {p : IntProperty} {d e : Bool} (h : p.side d = p.side e) {w : Word} :
    p.read d w = p.read e w := by
  unfold read
  rw [← shift_side p d, h, shift_side]

theorem side_ne_not {p : IntProperty} (h : p.isTwoDirectional = true) (d : Bool) :
    p.side d ≠ p.side (!d) := by
  unfold side
  rw [h]
  cases d <;> decide

theorem twoDirectional_of_ok {p : IntProperty} {u : Unit}
    (h : p.requireTwoDirections (K := K) = .ok u) : p.isTwoDirectional = true := by
  unfold requireTwoDirections at h
  split at h
  · assumption
  · cases h

/-- **A property has been placed** between two layouts: it has the bits that the first one had free
and the second one has not. -/
structure Placed (p : IntProperty) (l l' : FlagLayout) : Prop where
  pos : 0 < p.bits
  forward : p.forwardShift = l.usedBits
  backward : ∀ s, p.backwardShift = some s → s = l.usedBits + p.bits
  used : l'.usedBits = l.usedBits + p.width
  room : l'.usedBits ≤ FlagLayout.wordBits

/-- The bits of a placed property lie between the two layouts. -/
theorem Placed.within {p : IntProperty} {l l' : FlagLayout} (h : p.Placed l l') (d : Bool) :
    l.usedBits ≤ p.shift d ∧ p.shift d + p.bits ≤ l'.usedBits := by
  have hforward := h.forward
  have hused := h.used
  unfold width isTwoDirectional at hused
  unfold shift
  cases hback : p.backwardShift with
  | none =>
    rw [hback] at hused
    cases d <;> simp at hused ⊢ <;> omega
  | some s =>
    have hs := h.backward s hback
    rw [hback] at hused
    cases d <;> simp at hused ⊢ <;> omega

/-- **The two directions** of a property that tells them apart are apart. -/
theorem Placed.apart {p : IntProperty} {l l' : FlagLayout} (h : p.Placed l l') {d e : Bool}
    (hside : p.side d ≠ p.side e) : p.Apart d p e := by
  have hforward := h.forward
  unfold side isTwoDirectional at hside
  unfold Apart shift
  cases hback : p.backwardShift with
  | none => simp [hback] at hside
  | some s =>
    have hs := h.backward s hback
    cases d <;> cases e <;> simp [hback] at hside ⊢ <;> omega

end IntProperty

/-! ## §2. One registration. -/

namespace PropertyType

/-- How many bits a type asks for. -/
def bits : PropertyType K → Nat
  | int bits => bits
  | bool => 1
  | decimal bits _ => bits
  | roadClass => FlagLayout.bitsFor (Enumerated.values : List RoadClass).length

/-- The property of a type over its bits. -/
def withBits (p : IntProperty) : PropertyType K → Property K
  | int _ => .int p
  | bool => .bool ⟨p⟩
  | decimal _ factor => .decimal ⟨p, factor⟩
  | roadClass => .roadClass ⟨p⟩

end PropertyType

namespace FlagLayout

variable {l l' : FlagLayout} {name : String} {two : Bool}

/-- **Bits that are taken** are the next ones, and there is room for them. -/
theorem allocate_ok {bits s : Nat} (h : l.allocate (K := K) name bits = .ok (s, l')) :
    0 < bits ∧ s = l.usedBits ∧ l'.usedBits = l.usedBits + bits ∧ l'.usedBits ≤ wordBits := by
  unfold allocate available at h
  split at h
  · cases h
  · obtain ⟨rfl, rfl⟩ := Prod.mk.inj (Except.ok.inj h)
    exact ⟨by omega, rfl, rfl, by simp only; omega⟩

/-- **A whole number that is registered** takes its bits once, or once for each direction. -/
theorem addInt_cases {bits : Nat} {p : IntProperty}
    (h : l.addInt (K := K) name bits two = .ok (p, l')) :
    ∃ s l₁, l.allocate (K := K) name bits = .ok (s, l₁) ∧
      ((two = false ∧ p = ⟨name, bits, s, none⟩ ∧ l' = l₁) ∨
        (two = true ∧ ∃ s', l₁.allocate (K := K) name bits = .ok (s', l') ∧
          p = ⟨name, bits, s, some s'⟩)) := by
  unfold addInt at h
  simp only [bind, Except.bind, pure, Except.pure, throw, throwThe, MonadExceptOf.throw] at h
  by_cases hfull : l.available < if two = true then bothDirections bits else bits
  · rw [if_pos hfull] at h
    cases h
  rw [if_neg hfull] at h
  rcases hforward : l.allocate (K := K) name bits with e | ⟨s, l₁⟩
  · rw [hforward] at h
    cases h
  rw [hforward] at h
  refine ⟨s, l₁, rfl, ?_⟩
  cases two with
  | false =>
    obtain ⟨rfl, rfl⟩ := Prod.mk.inj (Except.ok.inj h)
    exact .inl ⟨rfl, rfl, rfl⟩
  | true =>
    rcases hbackward : l₁.allocate (K := K) name bits with e | ⟨s', l₂⟩
    · simp [hbackward] at h
    simp only [hbackward, ↓reduceIte] at h
    obtain ⟨rfl, rfl⟩ := Prod.mk.inj (Except.ok.inj h)
    exact .inr ⟨rfl, s', rfl, rfl⟩

/-- **A whole number that is registered** is placed, and has the bits that were asked for. -/
theorem addInt_placed {bits : Nat} {p : IntProperty}
    (h : l.addInt (K := K) name bits two = .ok (p, l')) : p.Placed l l' ∧ p.bits = bits := by
  obtain ⟨s, l₁, hforward, ⟨-, rfl, rfl⟩ | ⟨-, s', hbackward, rfl⟩⟩ := addInt_cases h
  · obtain ⟨hpos, rfl, hused, hroom⟩ := allocate_ok hforward
    refine ⟨⟨hpos, rfl, ?_, hused, hroom⟩, rfl⟩
    rintro s ⟨⟩
  · obtain ⟨hpos, rfl, hused, -⟩ := allocate_ok hforward
    obtain ⟨-, rfl, hused', hroom'⟩ := allocate_ok hbackward
    refine ⟨⟨hpos, rfl, ?_, ?_, hroom'⟩, rfl⟩
    · rintro s ⟨⟩
      exact hused
    · show _ = l.usedBits + 2 * bits
      omega

/-- **A registration** takes the bits of a whole number, whatever the type. -/
theorem add_eq (l : FlagLayout) (name : String) (type : PropertyType K) (two : Bool) :
    l.add name type two =
      (l.addInt name type.bits two).map fun (int, l') => (type.withBits int, l') := by
  cases type with
  | int bits => rfl
  | bool =>
    show (l.addInt name 1 two >>= _).map _ = (l.addInt name 1 two).map _
    cases l.addInt (K := K) name 1 two <;> rfl
  | decimal bits factor =>
    show (l.addInt name bits two >>= _).map _ = (l.addInt name bits two).map _
    cases l.addInt (K := K) name bits two <;> rfl
  | roadClass =>
    let bits := bitsFor (Enumerated.values : List RoadClass).length
    show (l.addInt name bits two >>= _).map _ = (l.addInt name bits two).map _
    cases l.addInt (K := K) name bits two <;> rfl

/-- **Whatever is registered** is placed, with bits for all listed values. -/
theorem add_placed {type : PropertyType K} {p : Property K}
    (h : l.add name type two = .ok (p, l')) : p.bits.Placed l l' ∧ p.Roomy := by
  rw [add_eq] at h
  obtain ⟨⟨int, l₁⟩, hint, heq⟩ := except_map.1 h
  obtain ⟨rfl, rfl⟩ := Prod.mk.inj heq
  obtain ⟨hplaced, hbits⟩ := addInt_placed hint
  cases type with
  | int bits => exact ⟨hplaced, trivial⟩
  | bool => exact ⟨hplaced, Nat.le_of_eq hbits.symm⟩
  | decimal bits factor => exact ⟨hplaced, trivial⟩
  | roadClass =>
    have hfour : bitsFor (Enumerated.values : List RoadClass).length = 4 := by decide
    exact ⟨hplaced, Nat.le_of_eq (hfour.symm.trans hbits.symm)⟩

/-! ## §3. All registrations. -/

/-- **The properties that a layout has handed out**, in their order.  A registration that is
refused hands out nothing and leaves the layout as it is. -/
inductive Registered : List (Property K) → FlagLayout → Prop where
  | none : Registered [] empty
  | next {ps : List (Property K)} {l l' : FlagLayout} {name : String} {type : PropertyType K}
      {two : Bool} {p : Property K} (before : Registered ps l)
      (added : l.add name type two = .ok (p, l')) : Registered (ps ++ [p]) l'

namespace Registered

variable {ps : List (Property K)} {p q : Property K}

/-- Each property has been placed, and the layout has not shrunk since. -/
theorem exists_placed (h : Registered ps l) (hp : p ∈ ps) :
    ∃ a b, p.bits.Placed a b ∧ p.Roomy ∧ b.usedBits ≤ l.usedBits := by
  induction h with
  | none => cases hp
  | next before added ih =>
    obtain ⟨hplaced, hroomy⟩ := add_placed added
    have hgrown := hplaced.used
    rcases List.mem_append.1 hp with hp | hp
    · obtain ⟨a, b, hold, hwide, hle⟩ := ih hp
      exact ⟨a, b, hold, hwide, by omega⟩
    · obtain rfl := List.mem_singleton.1 hp
      exact ⟨_, _, hplaced, hroomy, Nat.le_refl _⟩

/-- **No two properties share a bit**, in whatever directions. -/
theorem pairwise_apart (h : Registered ps l) :
    ps.Pairwise fun p q => ∀ d e, p.bits.Apart d q.bits e := by
  induction h with
  | none => exact .nil
  | next before added ih =>
    refine List.pairwise_append.2 ⟨ih, List.pairwise_singleton _ _, fun p hp q hq d e => ?_⟩
    obtain rfl := List.mem_singleton.1 hq
    obtain ⟨a, b, hold, -, hle⟩ := before.exists_placed hp
    have hbefore := hold.within d
    have hafter := (add_placed added).1.within e
    exact .inl (by omega)

theorem apart (h : Registered ps l) (hp : p ∈ ps) (hq : q ∈ ps) (hne : p ≠ q) (d e : Bool) :
    p.bits.Apart d q.bits e := by
  have : Std.Symm fun p q : Property K => ∀ d e, p.bits.Apart d q.bits e :=
    ⟨fun p q hpq d e => (hpq e d).symm⟩
  exact h.pairwise_apart.forall hp hq hne d e

/-- The two directions of one property share no bit unless they are the same. -/
theorem apart_of_side_ne (h : Registered ps l) (hp : p ∈ ps) {d e : Bool}
    (hside : p.bits.side d ≠ p.bits.side e) : p.bits.Apart d p.bits e := by
  obtain ⟨a, b, hplaced, -⟩ := h.exists_placed hp
  exact hplaced.apart hside

/-- A property in one direction is apart from a property in another, unless both are the same. -/
theorem apart_unless (h : Registered ps l) (hp : p ∈ ps) (hq : q ∈ ps) {d e : Bool}
    (hne : p = q → p.bits.side d ≠ q.bits.side e) : p.bits.Apart d q.bits e := by
  by_cases heq : p = q
  · subst heq
    exact h.apart_of_side_ne hp (hne rfl)
  · exact h.apart hp hq heq d e

/-- All bits of a property lie in the word. -/
theorem within_word (h : Registered ps l) (hp : p ∈ ps) (d : Bool) :
    p.bits.shift d + p.bits.bits ≤ wordBits := by
  obtain ⟨a, b, hplaced, -⟩ := h.exists_placed hp
  exact Nat.le_trans (hplaced.within d).2 hplaced.room

theorem bits_le (h : Registered ps l) (hp : p ∈ ps) : p.bits.bits ≤ wordBits :=
  Nat.le_trans (Nat.le_add_left _ _) (h.within_word hp false)

/-- **What is kept fits**: the number of a value has no more bits than the property. -/
theorem le_maxValue [Scalar K] (h : Registered ps l) (hp : p ∈ ps) {x : p.Value} {n : Nat}
    (hkeeps : p.Keeps x) (hn : p.encode x = .ok n) : n ≤ p.bits.maxValue := by
  obtain ⟨a, b, -, hroomy, -⟩ := h.exists_placed hp
  exact Property.le_maxValue_of_encode (h.bits_le hp) hroomy hkeeps hn

end Registered

end FlagLayout

end RoadSplice

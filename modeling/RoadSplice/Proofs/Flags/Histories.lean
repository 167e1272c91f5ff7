/-
  RoadSplice.Proofs.Flags.Histories — any history of registrations.

  Registrations change a layout in place, one direction after the other, and may be refused half
  way.  Nothing is taken by one that is refused: the need for both directions is checked before the
  first of them is given its bits.  So after any history, refused registrations included, the
  properties that were granted share no bit, and what is written through one of them is read back
  there and nowhere else.
-/
import Mathlib.Algebra.GroupWithZero.Nat
import Mathlib.Data.List.Induction
import RoadSplice.Proofs.Flags.Layout

namespace RoadSplice

variable {K : Type}

/-! ## §1. Registering in place. -/

/-- **A change of a layout.**  The layout comes back also when the change is refused, as it was
left. -/
abbrev Registering (K α : Type) := ExceptT (Error K) (StateM FlagLayout) α

namespace FlagLayout

/-- Takes the next bits and tells where they begin. -/
def takeBits (name : String) (bits : Nat) : Registering K Nat := do
  let l ← get
  if bits = 0 ∨ l.available < bits then throw (.flagLayoutFull name bits l.available)
  set (⟨l.usedBits + bits⟩ : FlagLayout)
  return l.usedBits

/-- Takes the bits of a whole number, those of each direction in turn. -/
def takeInt (name : String) (bits : Nat) (twoDirections : Bool) : Registering K IntProperty := do
  let l ← get
  let needed := if twoDirections then bothDirections bits else bits
  if l.available < needed then throw (.flagLayoutFull name needed l.available)
  let forward ← takeBits name bits
  if twoDirections then
    let backward ← takeBits name bits
    return ⟨name, bits, forward, some backward⟩
  else return ⟨name, bits, forward, none⟩

/-- A result with the layout after it; what is refused leaves the layout as it was. -/
def orKept {α : Type} (l : FlagLayout) :
    Except (Error K) (α × FlagLayout) → Except (Error K) α × FlagLayout
  | .ok (a, l') => (.ok a, l')
  | .error e => (.error e, l)

variable {name : String} {bits : Nat} {two : Bool} {l : FlagLayout}

/-- **Bits taken in place** are those that are handed out with a new layout. -/
theorem run_takeBits :
    (takeBits (K := K) name bits).run.run l = l.orKept (l.allocate name bits) := by
  unfold allocate
  by_cases hfull : bits = 0 ∨ l.available < bits
  · have hrefused : (takeBits (K := K) name bits).run.run l =
        (.error (.flagLayoutFull name bits l.available), l) := by
      show ((if bits = 0 ∨ l.available < bits then throw _ else _ : Registering K Nat).run.run l) = _
      rw [if_pos hfull]
      rfl
    rw [if_pos hfull, hrefused]
    rfl
  · have htaken : (takeBits (K := K) name bits).run.run l =
        (.ok l.usedBits, ⟨l.usedBits + bits⟩) := by
      show ((if bits = 0 ∨ l.available < bits then throw _ else _ : Registering K Nat).run.run l) = _
      rw [if_neg hfull]
      rfl
    rw [if_neg hfull, htaken]
    rfl

/-- Where there is room for both directions, the second one is not refused after the first. -/
theorem allocate_second (hpos : bits ≠ 0) (hroom : ¬ l.available < bits)
    (hneeded : ¬ l.available < bothDirections bits) :
    allocate (K := K) ⟨l.usedBits + bits⟩ name bits =
      .ok (l.usedBits + bits, ⟨l.usedBits + bits + bits⟩) := by
  unfold available wordBits bothDirections at *
  -- A direction that fits has so few bits that the doubled count does not wrap.
  have hdouble : 2 * bits % UInt32.size = 2 * bits := by
    refine Nat.mod_eq_of_lt ?_
    rw [show UInt32.size = 4294967296 from rfl]
    omega
  rw [hdouble] at hneeded
  unfold allocate available wordBits
  refine if_neg ?_
  simp only
  omega

/-- The directions are told apart where that was asked for. -/
theorem addInt_isTwoDirectional {p : IntProperty} {l' : FlagLayout}
    (h : l.addInt (K := K) name bits two = .ok (p, l')) : p.isTwoDirectional = two := by
  obtain ⟨s, l₁, -, ⟨rfl, rfl, -⟩ | ⟨rfl, s', -, rfl⟩⟩ := addInt_cases h
  · rfl
  · rfl

/-- **A whole number registered in place** is the one that is handed out with a new layout, and one
that is refused has taken nothing, not even the bits of its first direction. -/
theorem run_takeInt :
    (takeInt (K := K) name bits two).run.run l = l.orKept (l.addInt name bits two) := by
  -- The layout is threaded through the steps, so they are laid open once, before the cases.
  have hstep : (takeInt (K := K) name bits two).run.run l =
      ((if l.available < (if two then bothDirections bits else bits) then
          throw (.flagLayoutFull name (if two then bothDirections bits else bits) l.available)
        else takeBits name bits >>= fun forward =>
          if two then takeBits name bits >>= fun backward =>
            pure ⟨name, bits, forward, some backward⟩
          else pure ⟨name, bits, forward, none⟩ : Registering K IntProperty).run.run l) := by
    unfold takeInt
    split <;> rfl
  have hrefused : ∀ e, l.allocate (K := K) name bits = .error e →
      (takeBits (K := K) name bits).run.run l = (.error e, l) := fun e he => by
    rw [run_takeBits, he]
    rfl
  have htaken : ∀ (l : FlagLayout) s l', l.allocate (K := K) name bits = .ok (s, l') →
      (takeBits (K := K) name bits).run.run l = (.ok s, l') := fun l s l' hs => by
    rw [run_takeBits, hs]
    rfl
  rw [hstep]
  unfold addInt
  simp only [bind, Except.bind, pure, Except.pure, throw, throwThe, MonadExceptOf.throw]
  by_cases hneeded : l.available < if two = true then bothDirections bits else bits
  · rw [if_pos hneeded, if_pos hneeded]
    rfl
  rw [if_neg hneeded, if_neg hneeded]
  rcases hforward : l.allocate (K := K) name bits with e | ⟨s, l₁⟩
  · exact (run_bind _ _ _).trans (by rw [hrefused e hforward]; rfl)
  refine (run_bind _ _ _).trans ?_
  rw [htaken l s l₁ hforward]
  cases two with
  | false => rfl
  | true =>
    -- The need for both directions was checked first, so the second one is not refused.
    obtain ⟨hpos, rfl, hused, -⟩ := allocate_ok hforward
    have hroom : ¬ l.available < bits := fun hfull => by
      rw [allocate, if_pos (.inr hfull)] at hforward
      cases hforward
    obtain rfl : l₁ = ⟨l.usedBits + bits⟩ := congrArg FlagLayout.mk hused
    have hsecond : allocate (K := K) ⟨l.usedBits + bits⟩ name bits = _ :=
      allocate_second (Nat.ne_of_gt hpos) hroom hneeded
    refine (run_bind _ _ _).trans ?_
    rw [htaken _ _ _ hsecond]
    simp only [hsecond, ↓reduceIte]
    rfl

end FlagLayout

/-! ## §2. Requests of any kind. -/

/-- **A registration that is asked for.**  A listed type is any type whose values are listed. -/
inductive Registration (K : Type) : Type 1 where
  | int (name : String) (bits : Nat) (twoDirections : Bool)
  | bool (name : String) (twoDirections : Bool)
  | decimal (name : String) (bits : Nat) (factor : K) (twoDirections : Bool)
  | listed (α : Type) [DecidableEq α] [Enumerated α] (name : String) (twoDirections : Bool)

namespace Registration

open FlagLayout

/-- The registration on a layout that is changed in place. -/
def inPlace : Registration K → Registering K IntProperty
  | int name bits two => takeInt name bits two
  | bool name two => takeInt name 1 two
  | decimal name bits _ two => takeInt name bits two
  | listed α name two => takeInt name (bitsFor (Enumerated.values : List α).length) two

/-- The registration that hands out a new layout: the bits of the property and the layout. -/
def handedOut (l : FlagLayout) : Registration K → Except (Error K) (IntProperty × FlagLayout)
  | int name bits two => l.addInt name bits two
  | bool name two => (l.addBool name two).map fun (p, l') => (p.int, l')
  | decimal name bits factor two =>
    (l.addDecimal name bits factor two).map fun (p, l') => (p.int, l')
  | listed α name two => (l.addEnum α name two).map fun (p, l') => (p.int, l')

/-- Whether the directions are to be told apart. -/
def twoDirections : Registration K → Bool
  | int _ _ two => two
  | bool _ two => two
  | decimal _ _ _ two => two
  | listed _ _ two => two

/-- How many bits are asked for, in each direction. -/
def bits : Registration K → Nat
  | int _ bits _ => bits
  | bool _ _ => 1
  | decimal _ bits _ _ => bits
  | listed α _ _ => bitsFor (Enumerated.values : List α).length

variable {l l' : FlagLayout} {ask : Registration K} {p : IntProperty}

/-- **Both ways to register agree**: what is refused in place leaves the layout as it was. -/
theorem run_inPlace (l : FlagLayout) (ask : Registration K) :
    ask.inPlace.run.run l = l.orKept (ask.handedOut l) := by
  cases ask with
  | int name bits two => exact run_takeInt
  | bool name two =>
    refine run_takeInt.trans (congrArg _ ?_)
    show _ = (l.addInt name 1 two >>= _).map _
    cases l.addInt (K := K) name 1 two <;> rfl
  | decimal name bits factor two =>
    refine run_takeInt.trans (congrArg _ ?_)
    show _ = (l.addInt name bits two >>= _).map _
    cases l.addInt (K := K) name bits two <;> rfl
  | listed α name two =>
    refine run_takeInt.trans (congrArg _ ?_)
    show _ = (l.addInt name (bitsFor (Enumerated.values : List α).length) two >>= _).map _
    cases l.addInt (K := K) name (bitsFor (Enumerated.values : List α).length) two <;> rfl

/-- A whole number is registered, whatever the kind of the request. -/
theorem inPlace_eq (ask : Registration K) :
    ∃ name, ask.inPlace = takeInt name ask.bits ask.twoDirections := by
  cases ask with
  | int name bits two => exact ⟨name, rfl⟩
  | bool name two => exact ⟨name, rfl⟩
  | decimal name bits factor two => exact ⟨name, rfl⟩
  | listed α name two => exact ⟨name, rfl⟩

/-- **What is granted** is placed on the next free bits, as it was asked for. -/
theorem placed_of_inPlace (h : ask.inPlace.run.run l = (.ok p, l')) :
    p.Placed l l' ∧ p.bits = ask.bits ∧ p.isTwoDirectional = ask.twoDirections := by
  obtain ⟨name, heq⟩ := ask.inPlace_eq
  rw [heq, run_takeInt] at h
  rcases hadd : l.addInt (K := K) name ask.bits ask.twoDirections with e | ⟨p', l₁⟩
  · rw [hadd] at h
    cases h
  · rw [hadd] at h
    obtain ⟨hp, rfl⟩ := Prod.mk.inj h
    obtain rfl := Except.ok.inj hp
    obtain ⟨hplaced, hbits⟩ := addInt_placed hadd
    exact ⟨hplaced, hbits, addInt_isTwoDirectional hadd⟩

/-- **What is refused** leaves the layout as it is. -/
theorem kept_of_refused {e : Error K} (h : ask.inPlace.run.run l = (.error e, l')) : l' = l := by
  rw [ask.run_inPlace] at h
  rcases hout : ask.handedOut l with e' | ⟨p, l₁⟩
  · rw [hout] at h
    exact (congrArg Prod.snd h).symm
  · rw [hout] at h
    cases congrArg Prod.fst h

end Registration

/-! ## §3. Histories. -/

/-- A request together with the bits that it was granted. -/
structure Granted (K : Type) : Type 1 where
  ask : Registration K
  int : IntProperty

/-- **A layout and the properties that it has granted**, in order. -/
structure Registry (K : Type) : Type 1 where
  layout : FlagLayout
  granted : List (Granted K)

namespace Registry

/-- One more registration.  The layout is the one that was left behind, granted or refused. -/
def after (r : Registry K) (ask : Registration K) : Registry K :=
  match ask.inPlace.run.run r.layout with
  | (.ok int, l) => ⟨l, r.granted ++ [⟨ask, int⟩]⟩
  | (.error _, l) => ⟨l, r.granted⟩

/-- **Any history of registrations** on a layout without properties. -/
def ofHistory (asks : List (Registration K)) : Registry K :=
  asks.foldl after ⟨FlagLayout.empty, []⟩

/-- **What every history keeps**: each granted property has been placed with the bits that were
asked for, properties granted later lie behind it, and together they take what is taken. -/
structure Orderly (r : Registry K) : Prop where
  placed : ∀ p ∈ r.granted,
    (p.int.bits = p.ask.bits ∧ p.int.isTwoDirectional = p.ask.twoDirections) ∧
      ∃ l l', p.int.Placed l l' ∧ l'.usedBits ≤ r.layout.usedBits
  apart : r.granted.Pairwise fun p q => ∀ d e, p.int.Apart d q.int e
  used : r.layout.usedBits = (r.granted.map (·.int.width)).sum

variable {r : Registry K}

/-- **One registration** keeps the order. -/
theorem Orderly.after (h : r.Orderly) (ask : Registration K) : (r.after ask).Orderly := by
  rcases hrun : ask.inPlace.run.run r.layout with ⟨e | p, l'⟩
  · -- Nothing was taken by what is refused.
    have hkept : l' = r.layout := Registration.kept_of_refused hrun
    have hafter : r.after ask = r := by
      unfold Registry.after
      rw [hrun, hkept]
    rwa [hafter]
  · obtain ⟨hplaced, hasked⟩ := Registration.placed_of_inPlace hrun
    have hafter : r.after ask = ⟨l', r.granted ++ [⟨ask, p⟩]⟩ := by
      unfold Registry.after
      rw [hrun]
    have hgrown : r.layout.usedBits ≤ l'.usedBits := by
      rw [hplaced.used]
      exact Nat.le_add_right _ _
    rw [hafter]
    refine ⟨fun q hq => ?_, ?_, ?_⟩
    · obtain hq | hq := List.mem_append.1 hq
      · obtain ⟨hasked, l₀, l₁, hold, hle⟩ := h.placed q hq
        exact ⟨hasked, l₀, l₁, hold, Nat.le_trans hle hgrown⟩
      · obtain rfl := List.mem_singleton.1 hq
        exact ⟨hasked, _, _, hplaced, Nat.le_refl _⟩
    · refine List.pairwise_append.2
        ⟨h.apart, List.pairwise_singleton _ _, fun q hq q' hq' d e => ?_⟩
      obtain rfl := List.mem_singleton.1 hq'
      obtain ⟨-, l₀, l₁, hold, hle⟩ := h.placed q hq
      have hbefore := hold.within d
      have hbehind : r.layout.usedBits ≤ p.shift e := (hplaced.within e).1
      show q.int.shift d + q.int.bits ≤ p.shift e ∨ p.shift e + p.bits ≤ q.int.shift d
      omega
    · show l'.usedBits = _
      rw [hplaced.used, h.used, List.map_append, List.sum_append]
      simp

/-- **A whole history** keeps it. -/
theorem orderly_ofHistory (asks : List (Registration K)) : (ofHistory asks).Orderly := by
  induction asks using List.reverseRecOn with
  | nil => exact ⟨fun p hp => absurd hp List.not_mem_nil, .nil, rfl⟩
  | append_singleton asks ask ih =>
    unfold ofHistory
    rw [List.foldl_append]
    exact ih.after ask

variable {p q : Granted K}

/-- The bits of a granted property lie in the word. -/
theorem Orderly.inside (h : r.Orderly) (hp : p ∈ r.granted) (d : Bool) :
    p.int.shift d + p.int.bits ≤ FlagLayout.wordBits := by
  obtain ⟨-, l, l', hplaced, -⟩ := h.placed p hp
  exact Nat.le_trans (hplaced.within d).2 hplaced.room

/-- **The bits of a granted property** in both directions, which are apart if they differ. -/
theorem Orderly.sides_apart (h : r.Orderly) (hp : p ∈ r.granted) {d e : Bool}
    (hside : p.int.side d ≠ p.int.side e) : p.int.Apart d p.int e := by
  obtain ⟨-, l, l', hplaced, -⟩ := h.placed p hp
  exact hplaced.apart hside

end Registry

/-! ## §4. Values of every kind. -/

namespace Enumerated

variable {α : Type} [DecidableEq α] [Enumerated α] {v : α}

/-- A listed value has a place in the list, and is the value at that place. -/
theorem ordinal_spec (hv : v ∈ (values : List α)) :
    ordinal v < (values : List α).length ∧ ofOrdinal (ordinal v) = v := by
  have hany : (values : List α).any (· = v) = true := List.any_eq_true.2 ⟨v, hv, decide_eq_true rfl⟩
  obtain ⟨i, hi⟩ := Option.isSome_iff_exists.1 (List.findIdx?_isSome.trans hany)
  obtain ⟨hlt, hfound, -⟩ := List.findIdx?_eq_some_iff_getElem.1 hi
  have hordinal : ordinal v = i := by
    unfold ordinal
    rw [hi]
    rfl
  refine ⟨hordinal ▸ hlt, ?_⟩
  unfold ofOrdinal
  rw [hordinal, Nat.min_eq_left (by omega), List.getElem?_eq_getElem hlt]
  exact of_decide_eq_true hfound

/-- **The bits of a listed type** suffice for all its values. -/
theorem ordinal_lt (hv : v ∈ (values : List α)) :
    ordinal v < 2 ^ FlagLayout.bitsFor (values : List α).length := by
  have hplace := (ordinal_spec hv).1
  have hbits : max (values : List α).length 2 - 1 < 2 ^ FlagLayout.bitsFor (values : List α).length :=
    Nat.lt_log2_self
  omega

end Enumerated

namespace Registration

/-- **What is written is read back**: a number that fits, a yes or no, a decimal that is given as
its number of steps, a value that is listed. -/
def ReadsBack [Scalar K] (p : IntProperty) : Registration K → Prop
  | int _ _ _ => ∀ d w n, n ≤ p.maxValue → p.read d (p.write d w n) = n
  | bool _ _ =>
    let p : BoolProperty := ⟨p⟩
    ∀ d w b, p.read d (p.write d w b) = b
  | decimal _ _ factor _ =>
    let p : DecimalProperty K := ⟨p, factor⟩
    ∀ d w n, n ≤ p.int.maxValue →
      p.read d (p.int.write d w n) = Scalar.decimal n 0 * factor
  | listed α _ _ =>
    let p : EnumProperty α := ⟨p⟩
    ∀ d w v, v ∈ (Enumerated.values : List α) → p.read d (p.write d w v) = v

variable {p : IntProperty} {ask : Registration K}

/-- **Every kind of value** is read back from bits that lie in the word. -/
theorem readsBack [Scalar K] (hbits : p.bits = ask.bits)
    (hinside : ∀ d, p.shift d + p.bits ≤ FlagLayout.wordBits) : ask.ReadsBack p := by
  have hfew : p.bits ≤ 64 := Nat.le_trans (Nat.le_add_left _ _) (hinside false)
  have hsmall : ∀ d w n, n < 2 ^ p.bits → p.read d (p.write d w n) = n := by
    intro d w n hn
    rw [IntProperty.read_write_self (hinside d), Nat.mod_eq_of_lt hn]
  have hfits : ∀ d w n, n ≤ p.maxValue → p.read d (p.write d w n) = n :=
    fun d w n hn => hsmall d w n ((IntProperty.le_maxValue_iff hfew).1 hn)
  -- Every kind of value is written as a number that fits the bits that were asked for.
  cases ask with
  | int name bits two => exact hfits
  | bool name two =>
    intro d w b
    have hone : b.toNat < 2 ^ p.bits := by
      rw [hbits]
      exact Bool.toNat_lt b
    show (p.read d (p.write d w b.toNat) != 0) = b
    rw [hsmall d w _ hone]
    cases b <;> rfl
  | decimal name bits factor two =>
    intro d w n hn
    show Scalar.decimal (p.read d (p.write d w n)) 0 * factor = _
    rw [hfits d w n hn]
  | listed α name two =>
    intro d w v hv
    have hplace : Enumerated.ordinal v < 2 ^ p.bits := by
      rw [hbits]
      exact Enumerated.ordinal_lt hv
    show Enumerated.ofOrdinal (p.read d (p.write d w (Enumerated.ordinal v))) = v
    rw [hsmall d w _ hplace]
    exact (Enumerated.ordinal_spec hv).2

end Registration

/-! ## §5. No property touches another one. -/

/-- **Properties that keep to themselves.** -/
structure Registry.Separate [Scalar K] (r : Registry K) : Prop where
  /-- Each granted property has the width and the directions that were asked for. -/
  asked : ∀ p ∈ r.granted,
    p.int.bits = p.ask.bits ∧ p.int.isTwoDirectional = p.ask.twoDirections
  /-- All bits lie in the word. -/
  inside : ∀ p ∈ r.granted, ∀ d, p.int.shift d + p.int.bits ≤ FlagLayout.wordBits
  /-- No two properties share a bit, in whatever directions. -/
  apart : r.granted.Pairwise fun p q => ∀ d e, p.int.Apart d q.int e
  /-- Nor do the two directions of a property that tells them apart. -/
  directions : ∀ p ∈ r.granted, p.int.isTwoDirectional = true → ∀ d, p.int.Apart d p.int (!d)
  /-- The taken bits are those of the properties. -/
  used : r.layout.usedBits = (r.granted.map (·.int.width)).sum
  /-- Values within range are read back as they were written. -/
  reads : ∀ p ∈ r.granted, p.ask.ReadsBack p.int
  /-- Any number is cut to the bits of the property when it is written. -/
  cut : ∀ p ∈ r.granted, ∀ d w n, p.int.read d (p.int.write d w n) = n % 2 ^ p.int.bits
  /-- Whatever is written, the other direction reads as before. -/
  otherDirection : ∀ p ∈ r.granted, p.int.isTwoDirectional = true →
    ∀ d w n, p.int.read (!d) (p.int.write d w n) = p.int.read (!d) w
  /-- So do all other properties, in both directions. -/
  others : r.granted.Pairwise fun p q => ∀ d e w n,
    q.int.read e (p.int.write d w n) = q.int.read e w ∧
      p.int.read d (q.int.write e w n) = p.int.read d w
  /-- No bit changes but those of the property in the direction that is written. -/
  untouched : ∀ p ∈ r.granted, ∀ d w n, ∀ i < FlagLayout.wordBits, ¬ p.int.Owns d i →
    (p.int.write d w n).getLsbD i = w.getLsbD i

/-- **Registrations never interfere.**  After any history of registrations, refused ones included,
the granted properties keep to themselves, and one more registration either takes the next bits or
leaves the layout as it is. -/
theorem registrations_never_interfere [Scalar K] (asks : List (Registration K)) :
    (Registry.ofHistory asks).Separate ∧
      ∀ ask : Registration K,
        ask.inPlace.run.run (Registry.ofHistory asks).layout =
            (Registry.ofHistory asks).layout.orKept (ask.handedOut (Registry.ofHistory asks).layout) ∧
          ∀ e l, ask.inPlace.run.run (Registry.ofHistory asks).layout = (.error e, l) →
            l.usedBits = (Registry.ofHistory asks).layout.usedBits := by
  have h := Registry.orderly_ofHistory asks
  refine ⟨?_, fun ask => ⟨ask.run_inPlace _, fun e l hrefused => ?_⟩⟩
  · -- The two sides of one property lie apart as those of two properties do.
    have hdirections : ∀ p ∈ (Registry.ofHistory asks).granted, p.int.isTwoDirectional = true →
        ∀ d, p.int.Apart d p.int (!d) :=
      fun p hp htwo d => h.sides_apart hp (IntProperty.side_ne_not htwo d)
    exact {
      asked := fun p hp => (h.placed p hp).1
      inside := fun p hp d => h.inside hp d
      apart := h.apart
      directions := hdirections
      used := h.used
      reads := fun p hp => Registration.readsBack (h.placed p hp).1.1 fun d => h.inside hp d
      cut := fun p hp d w n => IntProperty.read_write_self (h.inside hp d) w n
      otherDirection := fun p hp htwo d w n =>
        IntProperty.read_write_of_apart (hdirections p hp htwo d) w n
      others := h.apart.imp fun hpq d e w n =>
        ⟨IntProperty.read_write_of_apart (hpq d e) w n,
          IntProperty.read_write_of_apart (hpq d e).symm w n⟩
      untouched := fun p hp d w n i hi howns => by
        rw [IntProperty.getLsbD_write p.int d w n hi, if_neg howns] }
  · rw [Registration.kept_of_refused hrefused]

end RoadSplice

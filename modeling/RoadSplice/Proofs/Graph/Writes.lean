/-
  RoadSplice.Proofs.Graph.Writes — writing properties through views of edges.

  A write that is refused leaves the graph as it is.  One that is accepted changes the word of the
  road behind its view and nothing else: there it sets the bits of its property in the directions
  that it names.  So after any history of writes a property of a road reads what has been written
  to it last, and what it read at the start if nothing has.
-/
import Mathlib.Data.List.Basic
import RoadSplice.Graph.RoadGraph
import RoadSplice.Proofs.Flags.Layout

namespace RoadSplice

variable {K : Type} [Scalar K]

open FlagLayout

/-! ## §1. One write. -/

/-- **A write**: a property, the view through which it is written, and a value for one direction of
the view or for both. -/
structure PropertyWrite (K : Type) where
  view : EdgeView K
  property : Property K
  values : Assignment property.Value

namespace PropertyWrite

/-- Carrying out a write. -/
def perform (w : PropertyWrite K) : Edit K Unit :=
  RoadGraph.setProperty w.view w.property w.values

/-- The setters of the four types are writes. -/
theorem perform_eq (v : EdgeView K) :
    (∀ p values, perform ⟨v, .int p, values⟩ = RoadGraph.setInt v p values) ∧
      (∀ p values, perform ⟨v, .bool p, values⟩ = RoadGraph.setBool v p values) ∧
      (∀ p values, perform ⟨v, .decimal p, values⟩ = RoadGraph.setDecimal v p values) ∧
      ∀ p values, perform ⟨v, .roadClass p, values⟩ = RoadGraph.setEnum v p values :=
  ⟨fun _ _ => rfl, fun _ _ => rfl, fun _ _ => rfl, fun _ _ => rfl⟩

/-- **What a write makes of the word** of its road, once its values have been accepted. -/
inductive Changes : PropertyWrite K → (Word → Word) → Prop where
  | along {v : EdgeView K} {p : Property K} {x : p.Value} {n : Nat} (hn : p.encode x = .ok n) :
    Changes ⟨v, p, .along x⟩ fun word => p.bits.write v.reverse word n
  | against {v : EdgeView K} {p : Property K} {x : p.Value} {n : Nat} (hn : p.encode x = .ok n) :
    Changes ⟨v, p, .against x⟩ fun word => p.bits.write (!v.reverse) word n
  | both {v : EdgeView K} {p : Property K} {x y : p.Value} {n m : Nat}
    (htwo : p.bits.isTwoDirectional = true) (hn : p.encode x = .ok n) (hm : p.encode y = .ok m) :
    Changes ⟨v, p, .both x y⟩ fun word =>
      p.bits.write (!v.reverse) (p.bits.write v.reverse word n) m

/-- **How a write ends**: it is refused and the graph is as before, or it changes the word of its
road. -/
def Ends (w : PropertyWrite K) (g : RoadGraph K) (out : Except (Error K) Unit × RoadGraph K) :
    Prop :=
  (∃ e, out = (.error e, g)) ∨
    ∃ change, w.Changes change ∧ w.view.road < g.words.size ∧
      out = (.ok (), { g with words := g.words.modify w.view.road change })

variable {w : PropertyWrite K} {g : RoadGraph K}

/-- A value that is refused ends the write before the graph is touched. -/
theorem ends_liftExcept {α : Type} {r : Except (Error K) α} {next : α → Edit K Unit}
    (h : ∀ x, r = .ok x → w.Ends g ((next x).run.run g)) :
    w.Ends g ((liftExcept r >>= next).run.run g) := by
  cases r with
  | error e => exact .inl ⟨e, rfl⟩
  | ok x => exact h x rfl

theorem ends_updateWord {change : Word → Word} (h : w.Changes change) :
    w.Ends g ((RoadGraph.updateWord w.view.road change).run.run g) := by
  show w.Ends g ((if w.view.road < g.words.size then _ else _ : Edit K Unit).run.run g)
  by_cases hroad : w.view.road < g.words.size
  · rw [if_pos hroad]
    exact .inr ⟨change, h, hroad, rfl⟩
  · rw [if_neg hroad]
    exact .inl ⟨_, rfl⟩

/-- **Every write** is refused and changes nothing, or changes the word of its road. -/
theorem ends_perform (w : PropertyWrite K) (g : RoadGraph K) :
    w.Ends g (w.perform.run.run g) := by
  obtain ⟨v, p, values⟩ := w
  cases values with
  | along x =>
    refine ends_liftExcept fun n hn => ?_
    exact ends_updateWord (w := ⟨v, p, .along x⟩) (.along hn)
  | against x =>
    refine ends_liftExcept fun n hn => ?_
    exact ends_updateWord (w := ⟨v, p, .against x⟩) (.against hn)
  | both x y =>
    refine ends_liftExcept fun u htwo => ends_liftExcept fun n hn => ends_liftExcept fun m hm => ?_
    have htwo := IntProperty.twoDirectional_of_ok htwo
    exact ends_updateWord (w := ⟨v, p, .both x y⟩) (.both htwo hn hm)

/-- **A write whose values are accepted** changes the word of its road, if there is one. -/
theorem perform_of_changes {change : Word → Word} (h : w.Changes change)
    (hroad : w.view.road < g.words.size) :
    w.perform.run.run g = (.ok (), { g with words := g.words.modify w.view.road change }) := by
  have hupdate : (RoadGraph.updateWord w.view.road change).run.run g =
      (.ok (), { g with words := g.words.modify w.view.road change }) := by
    show (if w.view.road < g.words.size then _ else _ : Edit K Unit).run.run g = _
    rw [if_pos hroad]
    rfl
  -- Values are encoded before anything is written, and these are accepted.
  cases h with
  | @along v p x n hn =>
    show (liftExcept (p.encode x) >>= _ : Edit K Unit).run.run g = _
    rw [hn]
    exact hupdate
  | @against v p x n hn =>
    show (liftExcept (p.encode x) >>= _ : Edit K Unit).run.run g = _
    rw [hn]
    exact hupdate
  | @both v p x y n m htwo hn hm =>
    show (liftExcept p.bits.requireTwoDirections >>= fun _ =>
      liftExcept (p.encode x) >>= fun n => liftExcept (p.encode y) >>= fun m => _ :
        Edit K Unit).run.run g = _
    rw [IntProperty.requireTwoDirections, if_pos htwo, hn, hm]
    exact hupdate

/-! ## §2. What a property reads after one write. -/

/-- **A write gives a property of a road a value** in a direction: it is a write of that property,
through a view of that road, and one of its values is meant for that direction. -/
inductive Assigns (road : EdgeId) (p : Property K) (d : Bool) :
    p.Value → PropertyWrite K → Prop where
  | along {v : EdgeView K} {x : p.Value} (hroad : v.road = road)
    (hside : p.bits.side v.reverse = p.bits.side d) : Assigns road p d x ⟨v, p, .along x⟩
  | against {v : EdgeView K} {x : p.Value} (hroad : v.road = road)
    (hside : p.bits.side (!v.reverse) = p.bits.side d) : Assigns road p d x ⟨v, p, .against x⟩
  | bothAlong {v : EdgeView K} {x y : p.Value} (hroad : v.road = road)
    (hside : p.bits.side v.reverse = p.bits.side d) : Assigns road p d x ⟨v, p, .both x y⟩
  | bothAgainst {v : EdgeView K} {x y : p.Value} (hroad : v.road = road)
    (hside : p.bits.side (!v.reverse) = p.bits.side d) : Assigns road p d y ⟨v, p, .both x y⟩

variable {ps : List (Property K)} {l : FlagLayout} {p : Property K} {road : EdgeId} {d : Bool}
  {change : Word → Word}

omit [Scalar K] in
theorem Assigns.road_eq {x : p.Value} (h : w.Assigns road p d x) : w.view.road = road := by
  cases h <;> assumption

omit [Scalar K] in
theorem Assigns.property_eq {x : p.Value} (h : w.Assigns road p d x) : w.property = p := by
  cases h <;> rfl

/-- **The value that a write gives is read** from the word it makes, as far as its bits reach. -/
theorem Assigns.read (h : Registered ps l) (hp : p ∈ ps) {x : p.Value}
    (hassigns : w.Assigns road p d x) (hchange : w.Changes change) :
    ∃ n, p.encode x = .ok n ∧ ∀ word, p.bits.read d (change word) = n % 2 ^ p.bits.bits := by
  have hself : ∀ e word n, p.bits.side e = p.bits.side d →
      p.bits.read d (p.bits.write e word n) = n % 2 ^ p.bits.bits := by
    intro e word n hside
    rw [← IntProperty.read_eq_of_side hside]
    exact IntProperty.read_write_self (h.within_word hp e) word n
  cases hassigns with
  | along hroad hside =>
    cases hchange with
    | along hn => exact ⟨_, hn, fun word => hself _ word _ hside⟩
  | against hroad hside =>
    cases hchange with
    | against hn => exact ⟨_, hn, fun word => hself _ word _ hside⟩
  | @bothAlong v x y hroad hside =>
    cases hchange with
    | both htwo hn hm =>
      -- The opposite direction is written afterwards and has other bits.
      have hapart : p.bits.Apart (!v.reverse) p.bits d := by
        refine h.apart_of_side_ne hp fun hopposite => ?_
        exact IntProperty.side_ne_not htwo v.reverse (hside.trans hopposite.symm)
      refine ⟨_, hn, fun word => ?_⟩
      rw [IntProperty.read_write_of_apart hapart]
      exact hself _ word _ hside
  | bothAgainst hroad hside =>
    cases hchange with
    | both htwo hn hm => exact ⟨_, hm, fun word => hself _ _ _ hside⟩

/-- **A property to which a write gives nothing** reads what it read before. -/
theorem Changes.read (h : Registered ps l) (hw : w.property ∈ ps) (hp : p ∈ ps)
    (hnot : ∀ x, ¬ w.Assigns w.view.road p d x) (hchange : w.Changes change) (word : Word) :
    p.bits.read d (change word) = p.bits.read d word := by
  -- Each side to which a value is written is another one, and lies apart from the one that is read.
  cases hchange with
  | @along v q x n hn =>
    have hapart : q.bits.Apart v.reverse p.bits d := by
      refine h.apart_unless hw hp fun heq hside => ?_
      subst heq
      exact hnot x (.along rfl hside)
    exact IntProperty.read_write_of_apart hapart _ _
  | @against v q x n hn =>
    have hapart : q.bits.Apart (!v.reverse) p.bits d := by
      refine h.apart_unless hw hp fun heq hside => ?_
      subst heq
      exact hnot x (.against rfl hside)
    exact IntProperty.read_write_of_apart hapart _ _
  | @both v q x y n m htwo hn hm =>
    have halong : q.bits.Apart v.reverse p.bits d := by
      refine h.apart_unless hw hp fun heq hside => ?_
      subst heq
      exact hnot x (.bothAlong rfl hside)
    have hagainst : q.bits.Apart (!v.reverse) p.bits d := by
      refine h.apart_unless hw hp fun heq hside => ?_
      subst heq
      exact hnot y (.bothAgainst rfl hside)
    rw [IntProperty.read_write_of_apart hagainst]
    exact IntProperty.read_write_of_apart halong _ _

/-! ## §3. What a property of a road reads after one write. -/

omit [Scalar K] in
/-- The word of a road after the word of some road has been changed. -/
theorem word_modify {edge : EdgeId} (hedge : edge < g.words.size) (road : EdgeId) :
    RoadGraph.word { g with words := g.words.modify edge change } road =
      if edge = road then change (g.word road) else g.word road := by
  unfold RoadGraph.word
  rw [Array.getElem?_modify]
  by_cases heq : edge = road
  · subst heq
    rw [if_pos rfl, if_pos rfl, Array.getElem?_eq_getElem hedge]
    rfl
  · rw [if_neg heq, if_neg heq]

/-- **A write that is refused** leaves the graph as it is. -/
theorem eq_of_refused {e : Error K} {g' : RoadGraph K} (h : w.perform.run.run g = (.error e, g')) :
    g' = g := by
  obtain ⟨e', hout⟩ | ⟨change, -, -, hout⟩ := w.ends_perform g
  · exact (Prod.mk.inj (h.symm.trans hout)).2
  · cases (Prod.mk.inj (h.symm.trans hout)).1

/-- **A write that is accepted** changes the word of its road and nothing else. -/
theorem exists_change {g' : RoadGraph K} (h : w.perform.run.run g = (.ok (), g')) :
    ∃ change, w.Changes change ∧ w.view.road < g.words.size ∧
      g' = { g with words := g.words.modify w.view.road change } := by
  obtain ⟨e, hout⟩ | ⟨change, hchange, hroad, hout⟩ := w.ends_perform g
  · cases (Prod.mk.inj (h.symm.trans hout)).1
  · exact ⟨change, hchange, hroad, (Prod.mk.inj (h.symm.trans hout)).2⟩

/-- After an accepted write the property reads the value that it gives. -/
theorem Assigns.read_word (h : Registered ps l) (hp : p ∈ ps) {x : p.Value}
    (hassigns : w.Assigns road p d x) {g' : RoadGraph K}
    (hrun : w.perform.run.run g = (.ok (), g')) :
    ∃ n, p.encode x = .ok n ∧ p.bits.read d (g'.word road) = n % 2 ^ p.bits.bits := by
  obtain ⟨change, hchange, hroad, rfl⟩ := exists_change hrun
  obtain ⟨n, hn, hread⟩ := hassigns.read h hp hchange
  refine ⟨n, hn, ?_⟩
  rw [word_modify hroad, if_pos hassigns.road_eq]
  exact hread _

/-- After an accepted write a property to which it gives nothing reads what it read before. -/
theorem read_word_of_not_assigns (h : Registered ps l) (hw : w.property ∈ ps) (hp : p ∈ ps)
    (hnot : ∀ x, ¬ w.Assigns road p d x) {g' : RoadGraph K}
    (hrun : w.perform.run.run g = (.ok (), g')) :
    p.bits.read d (g'.word road) = p.bits.read d (g.word road) := by
  obtain ⟨change, hchange, hroad, rfl⟩ := exists_change hrun
  rw [word_modify hroad]
  by_cases heq : w.view.road = road
  · subst heq
    rw [if_pos rfl]
    exact hchange.read h hw hp hnot _
  · rw [if_neg heq]

end PropertyWrite

/-! ## §4. Histories of writes. -/

/-- **A history of writes** on a graph: those that have been accepted, in their order, and the
graph after them.  A write that is refused leaves whatever graph it hands back. -/
inductive Written (g₀ : RoadGraph K) : List (PropertyWrite K) → RoadGraph K → Prop where
  | start : Written g₀ [] g₀
  | accepted {done : List (PropertyWrite K)} {g g' : RoadGraph K} {w : PropertyWrite K}
    (before : Written g₀ done g) (run : w.perform.run.run g = (.ok (), g')) :
    Written g₀ (done ++ [w]) g'
  | refused {done : List (PropertyWrite K)} {g g' : RoadGraph K} {w : PropertyWrite K}
    {e : Error K} (before : Written g₀ done g) (run : w.perform.run.run g = (.error e, g')) :
    Written g₀ done g'

/-- **The last of some writes** that gives a property of a road a value in a direction gives it
this one. -/
def LastAssigned (done : List (PropertyWrite K)) (road : EdgeId) (p : Property K) (d : Bool)
    (x : p.Value) : Prop :=
  ∃ before w since, done = before ++ w :: since ∧ w.Assigns road p d x ∧
    ∀ u ∈ since, ∀ y, ¬ u.Assigns road p d y

namespace Written

variable {g₀ g : RoadGraph K} {done before since : List (PropertyWrite K)} {w : PropertyWrite K}
  {ps : List (Property K)} {l : FlagLayout} {p : Property K} {road : EdgeId} {d : Bool}

/-- **What no write has given** is as it was at the start. -/
theorem read_of_not_assigned (h : Written g₀ done g) (hps : Registered ps l)
    (hdone : ∀ w ∈ done, w.property ∈ ps) (hp : p ∈ ps)
    (hnot : ∀ w ∈ done, ∀ x, ¬ w.Assigns road p d x) :
    p.bits.read d (g.word road) = p.bits.read d (g₀.word road) := by
  induction h with
  | start => rfl
  | @accepted done g g' u earlier run ih =>
    have hlast : u ∈ done ++ [u] := List.mem_append_right _ (List.mem_singleton_self u)
    rw [PropertyWrite.read_word_of_not_assigns hps (hdone u hlast) hp (hnot u hlast) run]
    exact ih (fun w hw => hdone w (List.mem_append_left _ hw))
      fun w hw => hnot w (List.mem_append_left _ hw)
  | refused earlier run ih =>
    rw [PropertyWrite.eq_of_refused run]
    exact ih hdone hnot

/-- A history is one up to a write, that write, and one since. -/
theorem split (h : Written g₀ (before ++ w :: since) g) :
    ∃ g₁ g₂, w.perform.run.run g₁ = (.ok (), g₂) ∧ Written g₂ since g := by
  generalize hdone : before ++ w :: since = done at h
  induction h generalizing since with
  | start => simp at hdone
  | @accepted done g g' u earlier run ih =>
    -- The last write is the one that is looked for, or one of those since.
    rcases List.eq_nil_or_concat' since with rfl | ⟨since, last, rfl⟩
    · obtain ⟨-, heq⟩ := List.append_inj' hdone rfl
      obtain rfl := (List.cons.inj heq).1
      exact ⟨g, g', run, .start⟩
    · rw [← List.cons_append, ← List.append_assoc] at hdone
      obtain ⟨hinit, heq⟩ := List.append_inj' hdone rfl
      obtain rfl := (List.cons.inj heq).1
      obtain ⟨g₁, g₂, hrun, hsince⟩ := ih hinit
      exact ⟨g₁, g₂, hrun, hsince.accepted run⟩
  | refused earlier run ih =>
    obtain ⟨g₁, g₂, hrun, hsince⟩ := ih hdone
    exact ⟨g₁, g₂, hrun, hsince.refused run⟩

/-- **What has been given last is read**, as far as the bits of the property reach. -/
theorem read_of_lastAssigned (h : Written g₀ done g) (hps : Registered ps l)
    (hdone : ∀ w ∈ done, w.property ∈ ps) (hp : p ∈ ps) {x : p.Value}
    (hlast : LastAssigned done road p d x) :
    ∃ n, p.encode x = .ok n ∧ p.bits.read d (g.word road) = n % 2 ^ p.bits.bits := by
  obtain ⟨before, w, since, rfl, hassigns, hnot⟩ := hlast
  obtain ⟨g₁, g₂, hrun, hsince⟩ := h.split
  obtain ⟨n, hn, hread⟩ := hassigns.read_word hps hp hrun
  refine ⟨n, hn, ?_⟩
  rw [hsince.read_of_not_assigned hps (fun u hu => hdone u ?_) hp hnot]
  · exact hread
  · exact List.mem_append_right _ (List.mem_cons_of_mem _ hu)

/-- **A history of writes** changes flag words and nothing else. -/
theorem eq_but_words (h : Written g₀ done g) : ∃ words, g = { g₀ with words := words } := by
  induction h with
  | start => exact ⟨g₀.words, rfl⟩
  | accepted earlier run ih =>
    obtain ⟨words, rfl⟩ := ih
    obtain ⟨change, -, -, rfl⟩ := PropertyWrite.exists_change run
    exact ⟨_, rfl⟩
  | refused earlier run ih =>
    obtain rfl := PropertyWrite.eq_of_refused run
    exact ih

end Written

end RoadSplice

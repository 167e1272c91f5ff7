/-
  RoadSplice.Proofs.Fixture.Checks — edits that look before they change anything.

  Making a graph is a matter of many small edits, each of which may be refused.  What can go wrong
  with an edit is a list of checks in the order in which they are made; edits one after the other
  have their lists one after the other; and what is reported is the first check of the whole list
  that fails.  If none fails, what the graph holds afterwards depends on what it held before.
-/
import RoadSplice.Proofs.Graph.Built
import RoadSplice.Proofs.Results

namespace RoadSplice

variable {K : Type}

/-! ## §1. Checks in order. -/

/-- Something that has to be so, and the failure that is reported if it is not. -/
structure Check (K : Type) where
  holds : Prop
  error : Error K

/-- Nothing is wrong. -/
def AllHold (cs : List (Check K)) : Prop := ∀ c ∈ cs, c.holds

/-- **The first check that fails** decides what is reported. -/
inductive FirstViolation : List (Check K) → Error K → Prop
  | here {c : Check K} {rest : List (Check K)} : ¬ c.holds → FirstViolation (c :: rest) c.error
  | later {c : Check K} {rest : List (Check K)} {e : Error K} :
    c.holds → FirstViolation rest e → FirstViolation (c :: rest) e

section Checks

variable {cs ds : List (Check K)} {e e' : Error K}

theorem allHold_nil : AllHold ([] : List (Check K)) := fun _ hc => absurd hc List.not_mem_nil

theorem allHold_append : AllHold (cs ++ ds) ↔ AllHold cs ∧ AllHold ds := List.forall_mem_append

theorem allHold_flatMap {α : Type} {as : List α} {f : α → List (Check K)} :
    AllHold (as.flatMap f) ↔ ∀ a ∈ as, AllHold (f a) := by
  unfold AllHold
  simp only [List.mem_flatMap]
  constructor
  · intro h a ha c hc
    exact h c ⟨a, ha, hc⟩
  · rintro h c ⟨a, ha, hc⟩
    exact h a ha c hc

/-- What fails first is not put off by what would come later. -/
theorem FirstViolation.append (h : FirstViolation cs e) (ds : List (Check K)) :
    FirstViolation (cs ++ ds) e := by
  induction h with
  | here hc => exact .here hc
  | later hc _ ih => exact .later hc ih

/-- What comes later counts when nothing is wrong before. -/
theorem FirstViolation.behind (hcs : AllHold cs) (h : FirstViolation ds e) :
    FirstViolation (cs ++ ds) e := by
  induction cs with
  | nil => exact h
  | cons c cs ih =>
    obtain ⟨hc, hrest⟩ := List.forall_mem_cons.1 hcs
    exact .later hc (ih hrest)

theorem FirstViolation.not_allHold (h : FirstViolation cs e) : ¬ AllHold cs := by
  induction h with
  | here hc => exact fun hall => hc (hall _ List.mem_cons_self)
  | later _ _ ih => exact fun hall => ih fun c hc => hall c (List.mem_cons_of_mem _ hc)

/-- There is only one first failure. -/
theorem FirstViolation.unique (h : FirstViolation cs e) (h' : FirstViolation cs e') : e = e' := by
  induction h with
  | here hc =>
    cases h' with
    | here _ => rfl
    | later hc' _ => exact absurd hc' hc
  | later hc _ ih =>
    cases h' with
    | here hc' => exact absurd hc hc'
    | later _ h' => exact ih h'

end Checks

/-! ## §2. Values with their checks. -/

/-- **A value with its checks**: it is `a`, or what is reported is the first check that fails. -/
def Settles {α : Type} (r : Except (Error K) α) (cs : List (Check K)) (a : α) : Prop :=
  (AllHold cs ∧ r = .ok a) ∨ ∃ e, FirstViolation cs e ∧ r = .error e

section Settles

variable {α β : Type} {r : Except (Error K) α} {f : α → Except (Error K) β}
  {cs ds : List (Check K)} {a : α} {b : β}

theorem settles_ok (h : r = .ok a) : Settles r [] a := .inl ⟨allHold_nil, h⟩

/-- A value with one check. -/
theorem settles_of_check {c : Check K} (hok : c.holds → r = .ok a)
    (herror : ¬ c.holds → r = .error c.error) : Settles r [c] a := by
  by_cases hc : c.holds
  · exact .inl ⟨List.forall_mem_singleton.2 hc, hok hc⟩
  · exact .inr ⟨c.error, .here hc, herror hc⟩

theorem Settles.bind (hr : Settles r cs a) (hf : Settles (f a) ds b) :
    Settles (r >>= f) (cs ++ ds) b := by
  obtain ⟨hcs, rfl⟩ | ⟨e, hfirst, rfl⟩ := hr
  · obtain ⟨hds, hok⟩ | ⟨e, hfirst, herror⟩ := hf
    · exact .inl ⟨allHold_append.2 ⟨hcs, hds⟩, hok⟩
    · exact .inr ⟨e, hfirst.behind hcs, herror⟩
  · exact .inr ⟨e, hfirst.append ds, rfl⟩

/-- Values one by one. -/
theorem settles_mapM {γ : Type} {f : γ → Except (Error K) α} {check : γ → Check K} {value : γ → α}
    (h : ∀ x, Settles (f x) [check x] (value x)) (xs : List γ) :
    Settles (xs.mapM f) (xs.map check) (xs.map value) := by
  induction xs with
  | nil => exact settles_ok rfl
  | cons x xs ih =>
    rw [List.mapM_cons]
    have hrest : Settles (xs.mapM f >>= fun ys => pure (value x :: ys)) (xs.map check ++ [])
        (value x :: xs.map value) := ih.bind (settles_ok rfl)
    rw [List.append_nil] at hrest
    exact (h x).bind hrest

end Settles

/-! ## §3. Edits with their checks. -/

/-- **What a document says about a graph**: all but the lists at the nodes and the bounds, which
follow from it. -/
def RoadGraph.stripped [Scalar K] (g : RoadGraph K) : RoadGraph K :=
  { g with incident := #[], bounds := Bounds.empty }

/-- **An edit with its checks**: on a graph that holds `c` it answers `a` and leaves a graph that
holds `c'`, or it is refused for the first check that fails. -/
def Makes [Scalar K] {α : Type} (c : RoadGraph K) (x : Edit K α) (cs : List (Check K)) (a : α)
    (c' : RoadGraph K) : Prop :=
  ∀ g, g.stripped = c →
    (AllHold cs ∧ ∃ g', x.run.run g = (.ok a, g') ∧ g'.stripped = c') ∨
      ∃ e g', FirstViolation cs e ∧ x.run.run g = (.error e, g')

section Makes

variable [Scalar K] {α β : Type} {c c' c'' : RoadGraph K} {x : Edit K α} {f : α → Edit K β}
  {cs ds : List (Check K)} {a : α} {b : β}

/-- **One edit after the other**: the checks of the first come before those of the second. -/
theorem Makes.bind (hx : Makes c x cs a c') (hf : Makes c' (f a) ds b c'') :
    Makes c (x >>= f) (cs ++ ds) b c'' := by
  intro g hg
  have hrun := run_bind x f g
  obtain ⟨hcs, g', hxrun, hg'⟩ | ⟨e, g', hfirst, hxrun⟩ := hx g hg
  · rw [hxrun] at hrun
    obtain ⟨hds, g'', hfrun, hg''⟩ | ⟨e, g'', hfirst, hfrun⟩ := hf g' hg'
    · exact .inl ⟨allHold_append.2 ⟨hcs, hds⟩, g'', hrun.trans hfrun, hg''⟩
    · exact .inr ⟨e, g'', hfirst.behind hcs, hrun.trans hfrun⟩
  · rw [hxrun] at hrun
    exact .inr ⟨e, g', hfirst.append ds, hrun⟩

/-- The same edit with other checks, if these tell the same first failure. -/
theorem Makes.of_checks (hx : Makes c x cs a c') (hall : AllHold cs → AllHold ds)
    (hfirst : ∀ e, FirstViolation cs e → FirstViolation ds e) : Makes c x ds a c' := by
  intro g hg
  obtain ⟨hcs, hok⟩ | ⟨e, g', he, hrun⟩ := hx g hg
  · exact .inl ⟨hall hcs, hok⟩
  · exact .inr ⟨e, g', hfirst e he, hrun⟩

/-- An edit that is always carried out. -/
theorem makes_always
    (h : ∀ g, g.stripped = c → ∃ g', x.run.run g = (.ok a, g') ∧ g'.stripped = c') :
    Makes c x [] a c' := fun g hg => .inl ⟨allHold_nil, h g hg⟩

/-- What is read of the graph on the way is read of a graph that holds the same. -/
theorem makes_get_bind {f : RoadGraph K → Edit K β}
    (h : ∀ g, g.stripped = c → Makes c (f g) cs b c') : Makes c (get >>= f) cs b c' :=
  fun g hg => h g hg g hg

/-- A value that does not touch the graph. -/
theorem makes_liftExcept {r : Except (Error K) α} (h : Settles r cs a) :
    Makes c (liftExcept r) cs a c := by
  intro g hg
  obtain ⟨hcs, rfl⟩ | ⟨e, hfirst, rfl⟩ := h
  · exact .inl ⟨hcs, g, rfl, hg⟩
  · exact .inr ⟨e, g, hfirst, rfl⟩

/-- **An edit behind a check**: it is carried out when the check holds, and what stands in its place
otherwise fails with the error of the check. -/
theorem makes_guard {c₁ : Check K} {p : Prop} [Decidable p] {y : Edit K α} (hp : c₁.holds ↔ ¬ p)
    (hy : ∀ g, y.run.run g = (.error c₁.error, g)) (hx : Makes c x cs a c') :
    Makes c (if p then y else x) (c₁ :: cs) a c' := by
  intro g hg
  by_cases h : p
  · rw [if_pos h]
    exact .inr ⟨c₁.error, g, .here fun hholds => hp.1 hholds h, hy g⟩
  · rw [if_neg h]
    have hholds := hp.2 h
    obtain ⟨hcs, hok⟩ | ⟨e, g', hfirst, hrun⟩ := hx g hg
    · exact .inl ⟨List.forall_mem_cons.2 ⟨hholds, hcs⟩, hok⟩
    · exact .inr ⟨e, g', .later hholds hfirst, hrun⟩

/-- **The same edit for each member of a list**: what the graph holds grows with the part of the
list that is done. -/
theorem makes_forM {γ : Type} {f : γ → Edit K Unit} {checks : γ → List (Check K)}
    (held : List γ → RoadGraph K)
    (h : ∀ done x, Makes (held done) (f x) (checks x) () (held (done ++ [x]))) (xs done : List γ) :
    Makes (held done) (xs.forM f) (xs.flatMap checks) () (held (done ++ xs)) := by
  induction xs generalizing done with
  | nil =>
    rw [List.append_nil]
    exact makes_always fun g hg => ⟨g, rfl, hg⟩
  | cons x xs ih =>
    have hrest := ih (done ++ [x])
    rw [List.append_assoc] at hrest
    exact (h done x).bind hrest

end Makes

end RoadSplice

/-
  RoadSplice.Proofs.Results — results, and steps that may be refused.

  What comes of several parts is known from what comes of each: of two parts in a row, of the parts
  of a list, of steps that change a state.  A step that is refused leaves the state as it was changed
  until then, and no step is made after it.
-/
import Mathlib.Data.List.Forall2
import Std.Data.TreeMap

namespace RoadSplice

variable {ε α β σ : Type}

/-! ## §1. Results. -/

/-- A result in two steps. -/
theorem except_bind {x : Except ε α} {f : α → Except ε β} {b : β} :
    x >>= f = .ok b ↔ ∃ a, x = .ok a ∧ f a = .ok b := by
  cases x <;> simp [bind, Except.bind]

/-- A failure in two steps. -/
theorem except_bind_error {x : Except ε α} {f : α → Except ε β} {e : ε} :
    x >>= f = .error e ↔ x = .error e ∨ ∃ a, x = .ok a ∧ f a = .error e := by
  cases x <;> simp [bind, Except.bind]

/-- A result that is changed afterwards. -/
theorem except_map {x : Except ε α} {f : α → β} {b : β} :
    x.map f = .ok b ↔ ∃ a, x = .ok a ∧ f a = b := by
  cases x <;> simp [Except.map]

@[simp]
theorem except_pure {a b : α} : (pure a : Except ε α) = .ok b ↔ a = b := by
  simp [pure, Except.pure]

/-- What fails has no result. -/
@[simp]
theorem except_throw {e : ε} {a : α} : (throw e : Except ε α) ≠ .ok a := by
  simp [throw, throwThe, MonadExceptOf.throw]

/-- Results are not touched where failures are told in other words. -/
theorem mapError_eq_ok {ε' : Type} {f : ε → ε'} {x : Except ε α} {a : α}
    (h : x.mapError f = .ok a) : x = .ok a := by
  cases x with
  | error e => cases h
  | ok b => exact congrArg Except.ok (Except.ok.inj h)

/-! ## §2. Results for all entries of a list. -/

/-- What every step of a run keeps, the run keeps. -/
theorem foldlM_keeps {step : β → α → Except ε β} {P : β → Prop}
    (hstep : ∀ x a y, P x → step x a = .ok y → P y) (as : List α) {x y : β} (hx : P x)
    (h : as.foldlM step x = .ok y) : P y := by
  induction as generalizing x with
  | nil =>
    obtain rfl := Except.ok.inj h
    exact hx
  | cons a as ih =>
    rw [List.foldlM_cons] at h
    obtain ⟨z, hz, h⟩ := except_bind.1 h
    exact ih (hstep x a z hx hz) h

theorem forM_ok {as : List α} {f : α → Except ε Unit} (h : ∀ a ∈ as, f a = .ok ()) :
    as.forM f = .ok () := by
  induction as with
  | nil => rfl
  | cons a as ih =>
    show (f a >>= fun _ => as.forM f) = _
    rw [h a (by simp)]
    exact ih fun b hb => h b (by simp [hb])

/-- A step that always answers filters like its answers. -/
theorem filterM_ok {as : List α} {f : α → Except ε Bool} {p : α → Bool}
    (h : ∀ a ∈ as, f a = .ok (p a)) : as.filterM f = .ok (as.filter p) := by
  have haux : ∀ kept, List.filterAuxM f as kept = .ok ((as.filter p).reverse ++ kept) := by
    induction as with
    | nil => exact fun kept => rfl
    | cons a as ih =>
      intro kept
      unfold List.filterAuxM
      rw [h a (by simp)]
      show List.filterAuxM f as _ = _
      rw [ih fun b hb => h b (by simp [hb])]
      cases hp : p a <;> simp [hp]
  unfold List.filterM
  rw [haux]
  simp [bind, Except.bind, pure, Except.pure]

/-- Where each entry has a result, there is a list of results. -/
theorem mapM_ok {f : α → Except ε β} {P : α → β → Prop} {xs : List α}
    (h : ∀ x ∈ xs, ∃ y, f x = .ok y ∧ P x y) :
    ∃ ys, xs.mapM f = .ok ys ∧ List.Forall₂ P xs ys := by
  induction xs with
  | nil => exact ⟨[], rfl, .nil⟩
  | cons x xs ih =>
    obtain ⟨y, hy, hP⟩ := h x (by simp)
    obtain ⟨ys, hys, hall⟩ := ih fun x' hx' => h x' (by simp [hx'])
    refine ⟨y :: ys, ?_, .cons hP hall⟩
    rw [List.mapM_cons, hy, hys]
    rfl

/-- **What a list of values becomes**, one by one. -/
theorem mapM_eq_ok {f : α → Except ε β} {xs : List α} {ys : List β} :
    xs.mapM f = .ok ys ↔ List.Forall₂ (fun x y => f x = .ok y) xs ys := by
  constructor
  · intro h
    induction xs generalizing ys with
    | nil =>
      obtain rfl := Except.ok.inj h
      exact .nil
    | cons x xs ih =>
      rw [List.mapM_cons] at h
      obtain ⟨y, hy, h⟩ := except_bind.1 h
      obtain ⟨ys', hys', h⟩ := except_bind.1 h
      obtain rfl := except_pure.1 h
      exact .cons hy (ih hys')
  · intro h
    induction h with
    | nil => rfl
    | cons hy _ ih =>
      rw [List.mapM_cons, hy, ih]
      rfl

theorem mem_of_mapM_ok {f : α → Except ε β} {xs : List α} {ys : List β}
    (h : xs.mapM f = .ok ys) {y : β} (hy : y ∈ ys) : ∃ x ∈ xs, f x = .ok y := by
  have hall := mapM_eq_ok.1 h
  obtain ⟨i, hi, rfl⟩ := List.getElem_of_mem hy
  have hi' : i < xs.length := hall.length_eq ▸ hi
  exact ⟨xs[i], List.getElem_mem hi', hall.get hi' hi⟩

/-! ## §3. Tables. -/

/-- An entry stays where it is when another one is added. -/
theorem getElem?_push_of_some {xs : Array α} {x y : α} {i : Nat} (h : xs[i]? = some x) :
    (xs.push y)[i]? = some x := by
  have hi := (Array.getElem?_eq_some_iff.1 h).1
  rw [Array.getElem?_push, if_neg (Nat.ne_of_lt hi)]
  exact h

/-- What is found after an entry has been written is this entry, or was there before. -/
theorem getElem?_insert_cases {entries : Std.TreeMap Nat α} {n m : Nat} {x y : α}
    (h : (entries.insert m x)[n]? = some y) : (n = m ∧ y = x) ∨ entries[n]? = some y := by
  rw [Std.TreeMap.getElem?_insert] at h
  split at h
  · rename_i hn
    exact .inl ⟨(Nat.compare_eq_eq.1 hn).symm, (Option.some.inj h).symm⟩
  · exact .inr h

/-- Writing an entry takes none away. -/
theorem isSome_insert {entries : Std.TreeMap Nat α} {n : Nat}
    (hn : (entries[n]?).isSome = true) (m : Nat) (x : α) :
    ((entries.insert m x)[n]?).isSome = true := by
  rw [Std.TreeMap.getElem?_insert]
  split
  · rfl
  · exact hn

/-! ## §4. Steps on a state. -/

/-- **Two steps in a row.**  What the first one leaves behind stays, also when it is refused. -/
theorem run_bind (x : ExceptT ε (StateM σ) α) (f : α → ExceptT ε (StateM σ) β) (s : σ) :
    (x >>= f).run.run s = match x.run.run s with
      | (.ok a, s') => (f a).run.run s'
      | (.error e, s') => (.error e, s') := by
  rw [ExceptT.run_bind, StateT.run_bind]
  rcases x.run.run s with ⟨r, s'⟩
  cases r <;> rfl

end RoadSplice

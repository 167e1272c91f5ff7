/-
  RoadSplice.Proofs.Search.Frontier — the frontier as a sorted list.

  Adding an entry permutes nothing else and keeps the entries in the order of their weights, as
  long as all weights are numbers.
-/
import RoadSplice.Proofs.Numeric.Order
import RoadSplice.Search.Frontier

namespace RoadSplice.Frontier

/-! ## §1. What a frontier holds. -/

theorem insert_perm {K : Type} [Scalar K] (e : FrontierEntry K) (f : Frontier K) :
    (insert e f).Perm (e :: f) := by
  induction f with
  | nil => exact .refl _
  | cons a rest ih =>
    rw [insert]
    split
    · exact (ih.cons a).trans (.swap e a rest)
    · exact .refl _

theorem mem_insert {K : Type} [Scalar K] {e a : FrontierEntry K} {f : Frontier K} :
    a ∈ insert e f ↔ a = e ∨ a ∈ f := by
  rw [(insert_perm e f).mem_iff, List.mem_cons]

/-- A new entry is there once. -/
theorem nodup_insert {K : Type} [Scalar K] {e : FrontierEntry K} {f : Frontier K} (h : f.Nodup)
    (he : e ∉ f) : (insert e f).Nodup :=
  (insert_perm e f).nodup_iff.2 (List.nodup_cons.2 ⟨he, h⟩)

/-! ## §2. Order. -/

/-- Entries in the order of their weights. -/
def Sorted (f : Frontier Exact) : Prop := f.Pairwise (·.weight ≤ ·.weight)

/-- An entry that leaves before another weighs no more. -/
theorem weight_le_of_order {a e : FrontierEntry Exact} (ha : a.weight ≠ .nan)
    (he : e.weight ≠ .nan) :
    ((a.order e).isLE = true → a.weight ≤ e.weight) ∧
      (¬ (a.order e).isLE = true → e.weight ≤ a.weight) := by
  unfold FrontierEntry.order Scalar.order
  by_cases hlt : a.weight < e.weight
  · simp [hlt, Exact.le_of_lt hlt]
  · have hle : e.weight ≤ a.weight := (Exact.not_lt_iff ha he).1 hlt
    by_cases hgt : e.weight < a.weight
    · simp [hlt, hgt, hle]
    · have hle' : a.weight ≤ e.weight := (Exact.not_lt_iff he ha).1 hgt
      simp [hle, hle']

/-- **Adding an entry keeps the order.** -/
theorem Sorted.insert {e : FrontierEntry Exact} {f : Frontier Exact} (h : Sorted f)
    (he : e.weight ≠ .nan) (hf : ∀ a ∈ f, a.weight ≠ .nan) : Sorted (insert e f) := by
  -- Induction along the frontier: the entry goes behind all that leave before it.
  induction f with
  | nil => exact List.pairwise_singleton _ _
  | cons a rest ih =>
    have horder := weight_le_of_order (hf a (by simp)) he
    obtain ⟨hhead, htail⟩ := List.pairwise_cons.1 h
    have hrest := ih htail fun b hb => hf b (by simp [hb])
    rw [Frontier.insert]
    split
    · rename_i hle
      refine List.pairwise_cons.2 ⟨fun b hb => ?_, hrest⟩
      obtain rfl | hb := mem_insert.1 hb
      · exact horder.1 hle
      · exact hhead b hb
    · rename_i hle
      refine List.pairwise_cons.2 ⟨fun b hb => ?_, h⟩
      obtain rfl | hb := List.mem_cons.1 hb
      · exact horder.2 hle
      · exact Exact.le_of_le_of_le (horder.2 hle) (hhead b hb)

end RoadSplice.Frontier

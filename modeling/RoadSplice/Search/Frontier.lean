/-
  RoadSplice.Search.Frontier — the nodes that a search has reached and not yet left.

  Entries are kept in the order in which they leave: by weight, and by node where weights
  agree.
-/
import RoadSplice.Error

namespace RoadSplice

/-- A node reached at a weight. -/
structure FrontierEntry (K : Type) where
  weight : K
  node : NodeId
deriving Repr

/-- The entries still to leave, the next one first. -/
abbrev Frontier (K : Type) := List (FrontierEntry K)

namespace FrontierEntry

variable {K : Type} [Scalar K]

/-- The order in which entries leave. -/
def order (a b : FrontierEntry K) : Ordering :=
  (Scalar.order a.weight b.weight).then (compare a.node b.node)

end FrontierEntry

namespace Frontier

variable {K : Type} [Scalar K]

/-- **Adds an entry** behind all that leave before it. -/
def insert (e : FrontierEntry K) : Frontier K → Frontier K
  | [] => [e]
  | a :: rest => if (a.order e).isLE then a :: insert e rest else e :: a :: rest

theorem length_insert (e : FrontierEntry K) (f : Frontier K) :
    (insert e f).length = f.length + 1 := by
  induction f with
  | nil => rfl
  | cons a rest ih =>
    rw [insert]
    split
    · simp [ih]
    · rfl

/-- The frontier of a search that starts at a node. -/
def start (node : NodeId) : Frontier K := [⟨0, node⟩]

/-- The weight of the next entry; infinite when there is none. -/
def topWeight : Frontier K → K
  | [] => Scalar.infinity
  | e :: _ => e.weight

end Frontier

end RoadSplice

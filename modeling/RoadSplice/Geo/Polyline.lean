/-
  RoadSplice.Geo.Polyline — the shape of a road: its points in order.

  The first and the last point of a road's full shape are its *towers* (they lie at nodes), the
  points between them its *pillars*.  `Polyline.portion` cuts out what a caller asks for.
-/
import RoadSplice.Geo.Point

namespace RoadSplice

/-! ## §1. The type. -/

/-- Points in order, and whether their elevations count. -/
structure Polyline (K : Type) where
  points : List (Point K)
  is3d : Bool
deriving Repr

/-- The part of a shape that a caller asks for. -/
inductive Portion where
  /-- Every point. -/
  | all
  /-- The two ends. -/
  | towers
  /-- Every point but the last. -/
  | baseAndPillars
  /-- Every point but the first. -/
  | pillarsAndAdj
  /-- Every point but the two ends. -/
  | pillars
deriving DecidableEq, Repr

namespace Polyline

variable {K : Type}

/-- The shape without points. -/
def empty (is3d : Bool) : Polyline K := ⟨[], is3d⟩

def length (s : Polyline K) : Nat := s.points.length

def isEmpty (s : Polyline K) : Bool := s.points.isEmpty

def get? (s : Polyline K) (i : Nat) : Option (Point K) := s.points[i]?

def first? (s : Polyline K) : Option (Point K) := s.points.head?

def last? (s : Polyline K) : Option (Point K) := s.points.getLast?

/-! ## §2. Building and cutting. -/

def push (s : Polyline K) (p : Point K) : Polyline K := { s with points := s.points ++ [p] }

/-- The points from position `start` up to, not including, position `stop`. -/
def slice (s : Polyline K) (start stop : Nat) : List (Point K) :=
  (s.points.take stop).drop start

/-- `s` followed by a slice of `t`; no answer when the slice is not one of `t`. -/
def extend? (s t : Polyline K) (start stop : Nat) : Option (Polyline K) :=
  if start ≤ stop ∧ stop ≤ t.length then
    some { s with points := s.points ++ t.slice start stop }
  else none

/-- `s` followed by all of `t`. -/
def append (s t : Polyline K) : Polyline K := { s with points := s.points ++ t.points }

def reverse (s : Polyline K) : Polyline K := { s with points := s.points.reverse }

@[simp]
theorem length_push (s : Polyline K) (p : Point K) : (s.push p).length = s.length + 1 := by
  simp [push, length]

@[simp]
theorem length_reverse (s : Polyline K) : s.reverse.length = s.length := by
  simp [reverse, length]

@[simp]
theorem reverse_reverse (s : Polyline K) : s.reverse.reverse = s := by
  simp [reverse]

/-- The two ends of a list, or all of it when there are at most two. -/
def ends (points : List (Point K)) : List (Point K) :=
  match points.head?, points.getLast? with
  | some a, some b => if points.length < 3 then points else [a, b]
  | _, _ => points

/-- **The part of a shape that is asked for.** -/
def portion (s : Polyline K) (part : Portion) : Polyline K :=
  { s with
    points := match part with
      | .all => s.points
      | .towers => ends s.points
      | .baseAndPillars => s.points.dropLast
      | .pillarsAndAdj => s.points.drop 1
      | .pillars => s.points.dropLast.drop 1 }

/-- The segments of a shape: each point with the next one. -/
def segments (s : Polyline K) : List (Point K × Point K) := s.points.zip (s.points.drop 1)

/-- Two shapes agree when they have the same points and both or neither count elevations. -/
def same [Scalar K] (s t : Polyline K) : Bool :=
  s.length == t.length && (s.points.zip t.points).all (fun (p, q) => p.same q)
    && s.is3d == t.is3d

end Polyline

end RoadSplice

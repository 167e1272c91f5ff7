/-
  RoadSplice.Flags.RoadClass — the kinds of roads.
-/
import RoadSplice.Error

namespace RoadSplice

/-- A type whose values are listed in a fixed order, the first standing in for the unknown. -/
class Enumerated (α : Type) where
  values : List α
  /-- The value that is meant when nothing is known. -/
  first : α

/-- The kind of a road. -/
inductive RoadClass where
  | other
  | motorway
  | trunk
  | primary
  | secondary
  | tertiary
  | residential
  | service
  | track
deriving DecidableEq, Repr

namespace RoadClass

instance : Enumerated RoadClass where
  values := [other, motorway, trunk, primary, secondary, tertiary, residential, service, track]
  first := other

/-- The written name of a class. -/
def name : RoadClass → String
  | other => "other"
  | motorway => "motorway"
  | trunk => "trunk"
  | primary => "primary"
  | secondary => "secondary"
  | tertiary => "tertiary"
  | residential => "residential"
  | service => "service"
  | track => "track"

/-- The class with a given name. -/
def ofName? (text : String) : Option RoadClass :=
  (Enumerated.values : List RoadClass).find? fun c => c.name == text

/-- The class with a given name, or the failure that names it. -/
def read {K : Type} (text : String) : Except (Error K) RoadClass :=
  match ofName? text with
  | some c => .ok c
  | none => .error (.unknownRoadClass text)

end RoadClass

namespace Enumerated

variable {α : Type} [Enumerated α]

/-- The place of a value in the list. -/
def ordinal [DecidableEq α] (v : α) : Nat :=
  ((values : List α).findIdx? (· = v)).getD 0

/-- The value at a place; past the end of the list the last one. -/
def ofOrdinal (n : Nat) : α :=
  (values : List α)[min n ((values : List α).length - 1)]?.getD first

end Enumerated

end RoadSplice

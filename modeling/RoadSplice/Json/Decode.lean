/-
  RoadSplice.Json.Decode — values of the domain from JSON values.

  A record is written as an object or as an array of its fields in order.  An object may hold
  fields that the record does not have, but none twice; an array may leave out fields at its
  end, but hold no more than the record has.
-/
import RoadSplice.Json.Number
import RoadSplice.Json.Tree

namespace RoadSplice.Json.Tree

/-! ## §1. Plain values. -/

def toBool? : Tree → Option Bool
  | bool b => some b
  | _ => none

def toText? : Tree → Option String
  | string s => s
  | _ => none

def toFloat? : Tree → Option Float
  | number n => n.toFloat?
  | _ => none

/-- The greatest id. -/
def idLimit : Nat := UInt32.size - 1

/-- The number of a node or an edge. -/
def toId? : Tree → Option Nat
  | number n => n.toNat? idLimit
  | _ => none

def toList? {α : Type} (item : Tree → Option α) : Tree → Option (List α)
  | array items => items.mapM item
  | _ => none

/-- A value or null. -/
def toOption? {α : Type} (item : Tree → Option α) : Tree → Option (Option α)
  | null => some none
  | tree => (item tree).map some

/-- A name that stands for one of a few values, alone or as the key of a null. -/
def toName? {α : Type} (ofName : String → Option α) : Tree → Option α
  | string (some s) => ofName s
  | object [(some s, null)] => ofName s
  | _ => none

/-! ## §2. Records. -/

/-- The value of a field among the members of an object: nothing at all when it is there
twice. -/
def member? (members : List (Option String × Tree)) (name : String) : Option (Option Tree) :=
  match members.filter fun (key, _) => key == some name with
  | [] => some none
  | [(_, value)] => some (some value)
  | _ => none

/-- **The fields of a record**, each as the value written for it, if any. -/
def fields? (names : List String) : Tree → Option (List (Option Tree))
  | object members =>
    if members.all fun (key, _) => key.isSome then names.mapM (member? members) else none
  | array items =>
    if names.length < items.length then none
    else some ((items.map some) ++ List.replicate (names.length - items.length) none)
  | _ => none

/-- The value of a field that has to be there. -/
def required {α : Type} (decode : Tree → Option α) : Option Tree → Option α
  | none => none
  | some tree => decode tree

/-- The value of a field that has a default. -/
def withDefault {α : Type} (default : α) (decode : Tree → Option α) : Option Tree → Option α
  | none => some default
  | some tree => decode tree

end RoadSplice.Json.Tree

/-
  RoadSplice.Itinerary.Location — places named on the command line, as `lat,lon`.
-/
import RoadSplice.Decimal.Fixed
import RoadSplice.Decimal.Read
import RoadSplice.Decimal.Shortest
import RoadSplice.Text.Blank

namespace RoadSplice

/-- A place, in degrees. -/
structure Location (K : Type) where
  lat : K
  lon : K
deriving Repr

namespace Location

/-- Why a text is not a place. -/
inductive ReadError where
  | noComma (text : String)
  | badLatitude (text : String)
  | badLongitude (text : String)
  | outOfRange (lat lon : Float)
deriving Repr

def ReadError.message : ReadError → String
  | noComma text => s!"expected 'lat,lon', got '{text}'"
  | badLatitude text => s!"invalid latitude '{text}'"
  | badLongitude text => s!"invalid longitude '{text}'"
  | outOfRange lat lon => s!"location {Decimal.plain lat},{Decimal.plain lon} is out of range"

/-- **Reading a place**: two numbers around the first comma, blanks beside them left out, on the
globe. -/
def read (text : String) : Except ReadError (Location Float) := do
  match Text.splitAt? ',' text.toList with
  | none => .error (.noComma text)
  | some (left, right) =>
    let left := String.ofList (Text.trim left)
    let right := String.ofList (Text.trim right)
    let some lat := Decimal.read? left | .error (.badLatitude left)
    let some lon := Decimal.read? right | .error (.badLongitude right)
    if Scalar.within (-90) 90 lat && Scalar.within (-180) 180 lon then .ok ⟨lat, lon⟩
    else .error (.outOfRange lat lon)

/-- The text of a place, with six decimals. -/
def text (l : Location Float) : String := Decimal.fixed 6 l.lat ++ "," ++ Decimal.fixed 6 l.lon

end Location

end RoadSplice

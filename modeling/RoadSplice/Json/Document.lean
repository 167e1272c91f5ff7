/-
  RoadSplice.Json.Document — JSON values to be written.

  A document is laid out over several lines, two blanks to a level.  Numbers are whole or
  machine numbers; one that is no number, or infinite, is written as null.
-/
import RoadSplice.Decimal.Shortest

namespace RoadSplice.Json

/-- A JSON value that is to be written. -/
inductive Document where
  | null
  | bool (value : Bool)
  | natural (value : Nat)
  | decimal (value : Float)
  | text (value : String)
  | list (items : List Document)
  | record (members : List (String × Document))

namespace Document

/-- A value that may be missing. -/
def optional {α : Type} (document : α → Document) : Option α → Document
  | none => null
  | some x => document x

/-! ## §1. Words. -/

/-- The four digits of a character in a string. -/
def hexadecimal (c : Char) : List Char :=
  let digits := Nat.toDigits 16 c.toNat
  List.replicate (4 - digits.length) '0' ++ digits

/-- A character as it stands in a string. -/
def escaped (c : Char) : List Char :=
  match c with
  | '"' => ['\\', '"']
  | '\\' => ['\\', '\\']
  | '\n' => ['\\', 'n']
  | '\r' => ['\\', 'r']
  | '\t' => ['\\', 't']
  | '\x08' => ['\\', 'b']
  | '\x0c' => ['\\', 'f']
  | c => if c.toNat < 0x20 then '\\' :: 'u' :: hexadecimal c else [c]

def quoted (s : String) : String := "\"" ++ String.ofList (s.toList.flatMap escaped) ++ "\""

/-- The text of a machine number. -/
def number (x : Float) : String :=
  match Binary64.parts x with
  | .nan | .infinite _ => "null"
  | .finite negative significand exponent =>
    let text :=
      if significand = 0 then "0.0" else Decimal.compact (Decimal.shortest significand exponent)
    if negative then "-" ++ text else text

/-! ## §2. Layout. -/

/-- The break before a line at a depth. -/
def lineBreak (depth : Nat) : String := "\n" ++ String.ofList (List.replicate (2 * depth) ' ')

/-- The parts of a container between its brackets, each on a line of its own. -/
def bracketed (opening closing : String) (depth : Nat) : List String → String
  | [] => opening ++ closing
  | parts =>
    opening ++ lineBreak (depth + 1) ++ (("," ++ lineBreak (depth + 1)).intercalate parts)
      ++ lineBreak depth ++ closing

mutual

/-- **The text of a document** at a depth. -/
def textAt (depth : Nat) : Document → String
  | null => "null"
  | bool b => if b then "true" else "false"
  | natural n => toString n
  | decimal x => number x
  | text s => quoted s
  | list items => bracketed "[" "]" depth (itemTexts (depth + 1) items)
  | record members => bracketed "\x7b" "\x7d" depth (memberTexts (depth + 1) members)

def itemTexts (depth : Nat) : List Document → List String
  | [] => []
  | item :: rest => textAt depth item :: itemTexts depth rest

def memberTexts (depth : Nat) : List (String × Document) → List String
  | [] => []
  | (key, value) :: rest => (quoted key ++ ": " ++ textAt depth value) :: memberTexts depth rest

end

/-- **Writing a document.** -/
def write (d : Document) : String := textAt 0 d

end Document

end RoadSplice.Json

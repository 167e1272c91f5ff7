/-
  RoadSplice.Json.Tree — JSON values.

  `Tree.ofTokens?` reads a value from tokens.  Containers that are part way through wait on a
  stack of frames, so values may be nested to any depth.
-/
import RoadSplice.Json.Token

namespace RoadSplice.Json

/-- A JSON value.  Members keep their order and may repeat a key; a key or string is the text
that it spells, if it spells one. -/
inductive Tree where
  | null
  | bool (value : Bool)
  | number (value : Number)
  | string (text : Option String)
  | array (items : List Tree)
  | object (members : List (Option String × Tree))

namespace Tree

/-- A container part way through, its contents last first. -/
inductive Frame where
  | array (items : List Tree)
  /-- An object, and the key of the member whose value is being read. -/
  | object (members : List (Option String × Tree)) (key : Option String)

/-- What has been read, and what may follow. -/
inductive Progress where
  /-- A value has to follow. -/
  | value (stack : List Frame)
  /-- A value or the end of an array has to follow. -/
  | firstItem (stack : List Frame)
  /-- A key has to follow, for one more member of an object. -/
  | key (members : List (Option String × Tree)) (stack : List Frame)
  /-- A key or the end of an object has to follow. -/
  | firstKey (stack : List Frame)
  /-- A colon has to follow. -/
  | colon (members : List (Option String × Tree)) (key : Option String) (stack : List Frame)
  /-- A comma or the end of the innermost container has to follow. -/
  | afterItem (frame : Frame) (stack : List Frame)
  /-- Nothing may follow. -/
  | done (value : Tree)

/-- Hands a finished value to the container that waits for it. -/
def supply (value : Tree) : List Frame → Progress
  | [] => .done value
  | .array items :: stack => .afterItem (.array (value :: items)) stack
  | .object members key :: stack => .afterItem (.object ((key, value) :: members) none) stack

/-- A value that begins with a token. -/
def start (stack : List Frame) : Token → Option Progress
  | .null => some (supply .null stack)
  | .bool b => some (supply (.bool b) stack)
  | .number n => some (supply (.number n) stack)
  | .string s => some (supply (.string s) stack)
  | .openArray => some (.firstItem stack)
  | .openObject => some (.firstKey stack)
  | _ => none

/-- **One token read.** -/
def step : Progress → Token → Option Progress
  | .value stack, token => start stack token
  | .firstItem stack, .closeArray => some (supply (.array []) stack)
  | .firstItem stack, token => start (.array [] :: stack) token
  | .key members stack, .string key => some (.colon members key stack)
  | .firstKey stack, .closeObject => some (supply (.object []) stack)
  | .firstKey stack, .string key => some (.colon [] key stack)
  | .colon members key stack, .colon => some (.value (.object members key :: stack))
  | .afterItem (.array items) stack, .comma => some (.value (.array items :: stack))
  | .afterItem (.array items) stack, .closeArray => some (supply (.array items.reverse) stack)
  | .afterItem (.object members _) stack, .comma => some (.key members stack)
  | .afterItem (.object members _) stack, .closeObject =>
    some (supply (.object members.reverse) stack)
  | _, _ => none

/-- The value that a list of tokens stands for. -/
def ofTokens? (tokens : List Token) : Option Tree :=
  match tokens.foldlM step (.value []) with
  | some (.done value) => some value
  | _ => none

/-- **Reading a JSON text.** -/
def read? (text : String) : Option Tree := (tokens? text.toList).bind ofTokens?

end Tree

end RoadSplice.Json

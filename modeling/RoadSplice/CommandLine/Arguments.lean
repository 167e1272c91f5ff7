/-
  RoadSplice.CommandLine.Arguments — what the words after the program's name ask for.

  Words are read from left to right and the first fault ends the reading, so that a request for
  help that comes before a fault is granted and one that comes after it is not.
-/
import RoadSplice.Decimal.Read
import RoadSplice.Itinerary.Trip

namespace RoadSplice.CommandLine

/-! ## §1. Requests and faults. -/

/-- A request to plan a journey. -/
structure Arguments where
  /-- The file that holds the road graph. -/
  graphPath : String
  trip : Trip Float
  asJson : Bool
  verbose : Bool

/-- An option that takes a value. -/
inductive ValueOption where
  | source
  | target
  | via
  | heading
  | uTurnCost
  | headingPenalty
deriving DecidableEq, Repr

/-- An option that takes none. -/
inductive Flag where
  | passThrough
  | hierarchy
  | json
  | verbose
deriving DecidableEq, Repr

/-- Why the words ask for no journey. -/
inductive Halt where
  | help
  | version
  | unknown (word : String)
  | missingValue (option : ValueOption)
  | badValue (option : ValueOption) (value reason : String)
  | repeated (word : String)
  /-- A flag was given a value. -/
  | superfluousValue (flag : Flag)
  /-- A word stands where none is expected. -/
  | unexpected (word : String)
  | missing (what : String)
deriving Repr

namespace ValueOption

def name : ValueOption → String
  | source => "from"
  | target => "to"
  | via => "via"
  | heading => "heading"
  | uTurnCost => "u-turn-cost"
  | headingPenalty => "heading-penalty"

def all : List ValueOption := [source, target, via, heading, uTurnCost, headingPenalty]

def ofName? (text : String) : Option ValueOption := all.find? (·.name == text)

/-- Places may begin with a minus sign, so the word after their option is always its value. -/
def takesAnyWord : ValueOption → Bool
  | source | target | via => true
  | heading | uTurnCost | headingPenalty => false

end ValueOption

namespace Flag

def name : Flag → String
  | passThrough => "pass-through"
  | hierarchy => "ch"
  | json => "json"
  | verbose => "verbose"

def all : List Flag := [passThrough, hierarchy, json, verbose]

def ofName? (text : String) : Option Flag := all.find? (·.name == text)

end Flag

def Halt.message : Halt → String
  | help | version => ""
  | unknown word => s!"unexpected argument '{word}'"
  | missingValue option => s!"a value is required for '--{option.name}'"
  | badValue option value reason => s!"invalid value '{value}' for '--{option.name}': {reason}"
  | repeated word => s!"'{word}' cannot be used multiple times"
  | superfluousValue flag => s!"'--{flag.name}' takes no value"
  | unexpected word => s!"unexpected argument '{word}'"
  | missing what => s!"'{what}' is required"

/-! ## §2. What has been read. -/

/-- The words read so far. -/
structure Draft where
  graphPath : Option String := none
  source : Option (Location Float) := none
  target : Option (Location Float) := none
  via : List (Location Float) := []
  heading : Option Float := none
  uTurnCost : Option Float := none
  headingPenalty : Option Float := none
  flags : List Flag := []

/-- Fills a place of a draft that is still empty. -/
def once {α : Type} (option : ValueOption) (former : Option α) (value : α) :
    Except Halt (Option α) :=
  match former with
  | none => .ok (some value)
  | some _ => .error (.repeated option.name)

def readPlace (option : ValueOption) (text : String) : Except Halt (Location Float) :=
  (Location.read text).mapError fun e => .badValue option text e.message

def readNumber (option : ValueOption) (text : String) : Except Halt Float :=
  match Decimal.read? text with
  | some x => .ok x
  | none => .error (.badValue option text "invalid float literal")

namespace Draft

/-- **The value of an option.**  Only `via` may be given more than once. -/
def give (d : Draft) (option : ValueOption) (text : String) : Except Halt Draft := do
  match option with
  | .source => return { d with source := ← once option d.source (← readPlace option text) }
  | .target => return { d with target := ← once option d.target (← readPlace option text) }
  | .via => return { d with via := d.via ++ [← readPlace option text] }
  | .heading => return { d with heading := ← once option d.heading (← readNumber option text) }
  | .uTurnCost =>
    return { d with uTurnCost := ← once option d.uTurnCost (← readNumber option text) }
  | .headingPenalty =>
    return { d with headingPenalty := ← once option d.headingPenalty (← readNumber option text) }

def raise (d : Draft) (flag : Flag) : Except Halt Draft :=
  if d.flags.contains flag then .error (.repeated flag.name)
  else .ok { d with flags := flag :: d.flags }

/-- A word that is no option. -/
def giveWord (d : Draft) (word : String) : Except Halt Draft :=
  match d.graphPath with
  | none => .ok { d with graphPath := some word }
  | some _ => .error (.unexpected word)

/-- The letters behind a single hyphen. -/
def raiseLetters (d : Draft) : List Char → Except Halt Draft
  | [] => .ok d
  | 'v' :: rest => do (← d.raise .verbose).raiseLetters rest
  | 'h' :: _ => .error .help
  | 'V' :: _ => .error .version
  | letter :: _ => .error (.unknown (String.ofList ['-', letter]))

/-- The request that a finished draft stands for. -/
def finish (d : Draft) : Except Halt Arguments := do
  let some graphPath := d.graphPath | throw (.missing "<GRAPH>")
  let some source := d.source | throw (.missing "--from <FROM>")
  let some target := d.target | throw (.missing "--to <TO>")
  let car : WeightingConfig Float := WeightingConfig.car
  return {
    graphPath := graphPath
    trip := {
      places := [source] ++ d.via ++ [target]
      heading := d.heading
      passThrough := d.flags.contains .passThrough
      withHierarchy := d.flags.contains .hierarchy
      config := {
        headingPenalty := d.headingPenalty.getD 300
        uTurnCost := d.uTurnCost.getD 40
        turnCosts := car.turnCosts } }
    asJson := d.flags.contains .json
    verbose := d.flags.contains .verbose }

end Draft

/-! ## §3. Reading words. -/

/-- The kinds of words. -/
inductive Word where
  /-- Two hyphens alone: no options follow. -/
  | noMoreOptions
  /-- A long option, with a value if one is joined to it. -/
  | long (name : String) (value : Option String)
  /-- Single letters. -/
  | letters (letters : List Char)
  | plain (text : String)

/-- Reads the shape of a word. -/
def Word.ofText (text : String) : Word :=
  match text.toList with
  | ['-', '-'] => .noMoreOptions
  | '-' :: '-' :: rest =>
    match Text.splitAt? '=' rest with
    | some (name, value) => .long (String.ofList name) (some (String.ofList value))
    | none => .long (String.ofList rest) none
  | '-' :: letter :: rest => .letters (letter :: rest)
  | _ => .plain text

/-- Whether a word looks like an option. -/
def looksLikeOption (text : String) : Bool :=
  match text.toList with
  | '-' :: _ :: _ => true
  | _ => false

/-- A long option that has all it needs in its own word. -/
def Draft.giveLong (d : Draft) (name : String) (value : Option String) : Except Halt Draft :=
  match Flag.ofName? name, name, value with
  | some flag, _, none => d.raise flag
  | some flag, _, some _ => .error (.superfluousValue flag)
  | none, "help", none => .error .help
  | none, "version", none => .error .version
  | none, _, _ => .error (.unknown ("--" ++ name))

/-- **Reading words from left to right.** -/
def readWords (d : Draft) : List String → Except Halt Draft
  | [] => .ok d
  | word :: rest =>
    match Word.ofText word with
    | .noMoreOptions => rest.foldlM Draft.giveWord d
    | .plain text => do readWords (← d.giveWord text) rest
    | .letters letters => do readWords (← d.raiseLetters letters) rest
    | .long name value =>
      match ValueOption.ofName? name, value with
      | none, _ => do readWords (← d.giveLong name value) rest
      | some option, some text => do readWords (← d.give option text) rest
      | some option, none =>
        match rest with
        | [] => .error (.missingValue option)
        | text :: rest =>
          if looksLikeOption text && !option.takesAnyWord then .error (.missingValue option)
          else do readWords (← d.give option text) rest

/-- **The request that some words make.** -/
def Arguments.read (words : List String) : Except Halt Arguments := do
  (← readWords {} words).finish

end RoadSplice.CommandLine

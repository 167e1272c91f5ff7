/-
  RoadSplice.Main — the program: it reads its words and one file, and prints an itinerary.
-/
import RoadSplice.CommandLine.Run
import RoadSplice.Fixture.Decode

namespace RoadSplice.CommandLine

def usage : String :=
  "Usage: roadsplice [OPTIONS] --from <FROM> --to <TO> <GRAPH>"

def helpText : String :=
  "\n".intercalate [
    "Route between GPS fixes spliced into a prebuilt road graph",
    "",
    usage,
    "",
    "  <GRAPH>                       Graph fixture in JSON format",
    "  --from <FROM>                 Start location as \"lat,lon\"",
    "  --to <TO>                     Destination as \"lat,lon\"",
    "  --via <VIA>                   Intermediate location, repeat for several",
    "  --heading <HEADING>           Departure heading, degrees clockwise from north",
    "  --pass-through                Discourage turning back at via points",
    "  --ch                          Also route every leg over a contraction hierarchy",
    "  --json                        Print the route as JSON",
    "  --u-turn-cost <COST>          Seconds charged for a U-turn at a tower node [default: 40]",
    "  --heading-penalty <PENALTY>   Seconds added against a heading [default: 300]",
    "  -v, --verbose                 Enable verbose logging",
    "  -h, --help                    Print help",
    "  -V, --version                 Print version"]

def versionText : String := "roadsplice 0.1.0"

/-- The document in a file, with the reason why there is none. -/
def loadFixture (path : String) : IO (Except Failure (Fixture Float)) := do
  match ← (IO.FS.readFile path).toBaseIO with
  | .ok text => return (Fixture.read text).mapError fun e => .unreadable path e.message
  | .error e => return .error (.unreadable path (toString e))

/-- Grants a request and gives the exit code. -/
def grant (a : Arguments) : IO UInt32 := do
  match (← loadFixture a.graphPath).bind fun f => a.run (.ok f) with
  | .ok it =>
    IO.println (a.render it)
    return 0
  | .error failure =>
    IO.eprintln ("❌ Error: " ++ failure.message)
    return 1

end RoadSplice.CommandLine

open RoadSplice.CommandLine in
def main (words : List String) : IO UInt32 := do
  match Arguments.read words with
  | .ok a => grant a
  | .error .help =>
    IO.println helpText
    return 0
  | .error .version =>
    IO.println versionText
    return 0
  | .error halt =>
    IO.eprintln ("error: " ++ halt.message ++ "\n\n" ++ usage)
    return 2

import BoundaryAtlas.CommandLine.Arguments
import BoundaryAtlas.Run.Settings

/-!
# Commands

There are five commands: classify a grid, sample it, show the reference line, summarize a
table, and report the defaults.
-/

namespace BoundaryAtlas.CommandLine

/-- The settings of a run that are given as arguments. -/
structure RunArguments where
  config? : Option String := none
  envelope? : Option String := none
  settings : RunSettings := {}

/-- Who labels the traces. -/
inductive LabelerChoice where
  | polygon
  | human
  deriving DecidableEq, Repr

def LabelerChoice.name : LabelerChoice → String
  | .polygon => "Polygon"
  | .human => "Human"

inductive Command where
  | classify (run : RunArguments) (maxKinks? : Option Nat) (out : String) (table? : Option String)
    (labeler : LabelerChoice)
  | sample (run : RunArguments) (kinks count seed : Nat) (out : String)
  | positive (run : RunArguments)
  | summarize (table : String)
  | report

/-! ## Reading a command -/

def runOptions : List (String × ValueKind) :=
  [("config", .path), ("x-spacing", .float), ("num-x", .word32), ("y-spacing", .float),
    ("num-y", .word32), ("epsilon", .float), ("num-points", .word64), ("rate-bound", .float),
    ("timeout-ms", .word64), ("threads", .word64), ("envelope", .path)]

def runFlagNames : List String := ["verbose", "invert", "pointwise-lower"]

/-- A flag that is not given is left to the configuration file. -/
def onlyTrue (b : Bool) : Option Bool := if b then some true else none

def RunArguments.ofGiven (g : Given) : RunArguments where
  config? := g.value? "config"
  envelope? := g.value? "envelope"
  settings := {
    xSpacing? := g.float? "x-spacing"
    numX? := g.word32? "num-x"
    ySpacing? := g.float? "y-spacing"
    numY? := g.word32? "num-y"
    epsilon? := g.float? "epsilon"
    numPoints? := g.word64? "num-points"
    rateBound? := g.float? "rate-bound"
    timeoutMs? := g.word64? "timeout-ms"
    threads? := g.word64? "threads"
    invert? := onlyTrue (g.flag "invert")
    pointwiseLower? := onlyTrue (g.flag "pointwise-lower") }

/-- The names that a command knows. -/
def vocabulary? : String → Option Vocabulary
  | "classify" => some ⟨runOptions ++ [("max-kinks", .word64), ("out", .path), ("table", .path),
      ("labeler", .choice ["polygon", "human"])], runFlagNames ++ ["trace-draws"]⟩
  | "sample" => some ⟨runOptions ++ [("kinks", .word64), ("count", .word64), ("seed", .word64),
      ("out", .path)], runFlagNames⟩
  | "positive" => some ⟨runOptions, runFlagNames⟩
  | "summarize" => some ⟨[("table", .path)], ["verbose"]⟩
  | "report" => some ⟨[], ["verbose"]⟩
  | _ => none

/-- The command with a name, if everything that it needs is given. -/
def Command.ofGiven? (name : String) (g : Given) : Option Command :=
  match name with
  | "classify" => do
    let labeler := if g.value? "labeler" = some "human" then LabelerChoice.human else .polygon
    return .classify (.ofGiven g) (g.word64? "max-kinks") (← g.value? "out") (g.value? "table")
      labeler
  | "sample" => do
    return .sample (.ofGiven g) (← g.word64? "kinks") ((g.word64? "count").getD 10)
      ((g.word64? "seed").getD 0) (← g.value? "out")
  | "positive" => some (.positive (.ofGiven g))
  | "summarize" => (g.value? "table").map .summarize
  | "report" => some .report
  | _ => none

/-- The command after the flags in front of it. -/
def Command.ofWords (name : String) (args : List String) : Except Refusal Command :=
  match vocabulary? name with
  | none =>
    if name = "help" then
      match args with
      | [] => .error .help
      | [topic] => .error (if (vocabulary? topic).isSome || topic = "help" then .help else .usage)
      | _ => .error .usage
    else .error .usage
  | some known =>
    match readArguments known [] args with
    | .error refusal => .error refusal
    | .ok given =>
      match Command.ofGiven? name given with
      | some command => .ok command
      | none => .error .usage

/-- Reads the flags that stand before the command, and then the command. -/
def Command.ofArgs (given : Given) : List String → Except Refusal Command
  | [] => .error .usage
  | arg :: rest =>
    if isValue arg then Command.ofWords arg rest
    else if arg = "--" then .error .usage
    else
      match readArguments ⟨[], ["verbose"]⟩ given [arg] with
      | .error refusal => .error refusal
      | .ok given => Command.ofArgs given rest

end BoundaryAtlas.CommandLine

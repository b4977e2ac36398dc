import BoundaryAtlas.Atlas.Document
import BoundaryAtlas.Boundary.Simplify
import BoundaryAtlas.CommandLine.Command
import BoundaryAtlas.Fault.Message
import BoundaryAtlas.Files.Selection
import BoundaryAtlas.Grid.Sample
import BoundaryAtlas.Labeler.Prompt
import BoundaryAtlas.Pipeline.ReferenceLine
import BoundaryAtlas.Run.Provenance

/-!
# Running a command

A command runs in a world of files, an input and two outputs. What it wrote before a fault
stays written. Commands count without end, and their workers always start.
-/

namespace BoundaryAtlas.CommandLine

/-! ## Faults -/

/-- What was done to a file. -/
inductive FileAction where
  | reading
  | creating
  | creatingProvenance
  | writing
  deriving DecidableEq, Repr

def FileAction.phrase : FileAction → String
  | .reading => "reading "
  | .creating => "creating "
  | .creatingProvenance => "creating provenance dir "
  | .writing => "writing "

/-- Why a command failed. -/
inductive CommandFault where
  | config (fault : ConfigFault)
  | missingMaxKinks
  | file (action : FileAction) (path : String) (cause : FileError)
  | parsing (path : String)
  /-- A table could not be read. -/
  | table (path : String)
  /-- A table has no room for all its records. -/
  | tooManyRows
  deriving DecidableEq, Repr

/-- The fault of the library behind this one, if there is one. -/
def CommandFault.fault? : CommandFault → Option (Fault Float)
  | .config (.fault fault) => some fault
  | _ => none

def CommandFault.message : CommandFault → String
  | .config (.missing names) => "missing grid option(s): " ++ ", ".intercalate names
  | .config (.fault fault) => fault.message
  | .missingMaxKinks => "missing --max-kinks (or \"max_kinks\" in --config)"
  | .file action path _ => action.phrase ++ path
  | .parsing path => "parsing " ++ path
  | .table path => "summarizing " ++ path
  | .tooManyRows => "too many rows"

/-- What lies behind a fault, from the outside in. -/
def CommandFault.causes : CommandFault → List String
  | .file _ _ cause => [cause.message]
  | _ => []

/-- The text that a failed command ends with. -/
def CommandFault.report (f : CommandFault) : String :=
  let causes := f.causes.map fun cause => "    " ++ cause ++ "\n"
  "Error: " ++ f.message ++ "\n" ++
    if causes = [] then "" else "\nCaused by:\n" ++ String.join causes

/-! ## The world -/

/-- All that a command can see and change. -/
structure World where
  files : FileSystem
  /-- The bytes that a person types. -/
  input : List UInt8
  /-- The revision of the code, as the environment gives it. -/
  revision : String
  out : String := ""
  err : String := ""
  /-- The totals of a table, if they were asked for. -/
  totals? : Option Table.Frame := none
  /-- The text up to the first question that met the end of the input. -/
  unanswered? : Option String := none

/-- A step of a command. -/
abbrev Procedure := ExceptT CommandFault (StateM World)

/-- A result of the library, or its fault as the command's. -/
def liftFault {β : Type} : Except (Fault Float) β → Procedure β
  | .ok b => return b
  | .error fault => throw (.config (.fault fault))

def liftConfig {β : Type} : Except ConfigFault β → Procedure β
  | .ok b => return b
  | .error fault => throw (.config fault)

/-- A result of a file operation, or its failure as the command's. -/
def liftFile {β : Type} (action : FileAction) (path : String) :
    Except FileError β → Procedure β
  | .ok b => return b
  | .error cause => throw (.file action path cause)

/-- Makes the folder that a file is to stand in. -/
def makeParent (action : FileAction) (path : String) : Procedure Unit := do
  if let some parent := Path.parent? path then
    let (result, files) := (← get).files.makeFolders parent
    modify fun w => { w with files }
    liftFile action parent result

def putFile (action : FileAction) (path : String) (node : FileNode) : Procedure Unit := do
  let files ← liftFile action path ((← get).files.write path node)
  modify fun w => { w with files }

def putJson (path : String) (j : Json) : Procedure Unit := do
  makeParent .creating path
  putFile .writing path (.text j.pretty)

def print (text : String) : Procedure Unit := modify fun w => { w with out := w.out ++ text }

/-! ## Settings -/

/-- Reads a JSON file. -/
def readJson {β : Type} (path : String) (read : Json → Option β) : Procedure β := do
  match ← liftFile .reading path ((← get).files.read path) with
  | .text content =>
    match (Json.ofString? content).bind read with
    | some b => return b
    | none => throw (.parsing path)
  | _ => throw (.parsing path)

/-- The settings of the file, and those of the flags on top. -/
def RunArguments.collect (run : RunArguments) : Procedure RunSettings := do
  let base ← match run.config? with
    | some path => readJson path (RunSettings.ofJson? Json.library)
    | none => pure {}
  let envelope? ← match run.envelope? with
    | some path => some <$> readJson path (EnvelopeAnchors.ofJson? Json.library)
    | none => pure none
  return base.merge { run.settings with envelope? }

def synthesizer (c : RunSettings) : Synthesizer Float := .chain c.traceConfig c.solverConfig

def gridPipeline {σ : Type} (c : RunSettings) (d : Grid Float) (labeler : Labeler Float σ) :
    Pipeline Float σ :=
  { Pipeline.onGrid (synthesizer c) labeler d with inverts := c.inverts }

/-! ## The commands -/

/-- Puts the provenance beside an artefact. -/
def writeProvenance (artefact : String) (extra : List String) (command : String)
    (params summary : Json) : Procedure Unit := do
  let path := Provenance.path artefact
  makeParent .creatingProvenance path
  let doc : Provenance :=
    ⟨Provenance.revisionOf (← get).revision, command, params, summary, artefact :: extra⟩
  putFile .writing path (.text doc.toJson.pretty)

/-- Writes the records as a table. -/
def writeTable (path : String) (records : List Record) : Procedure Unit := do
  match Table.library.writeRecords? (Table.Format.ofPath path) records with
  | none => throw .tooManyRows
  | some stored =>
    makeParent .creating path
    putFile .creating path (match stored with
      | .text content => .text (String.ofList content)
      | .columns rows => .columns rows)

/-- Labels all boundaries of the grid, by the polygon or by asking. -/
def survey (c : RunSettings) (d : Grid Float) (config : SurveyConfig) (kind : LabelerChoice) :
    Procedure (Atlas Float) := do
  match kind with
  | .polygon =>
    let rule ← liftFault c.rule
    liftFault ((gridPipeline c d rule.labeler).survey d config .never (.new () false)).1
  | .human =>
    let start := Prompt.State.ofBytes (← get).input false
    let (result, after) :=
      (gridPipeline c d Prompt.labeler).survey d config .never (.new start false)
    modify fun w => { w with
      err := w.err ++ after.labeler.written
      unanswered? := after.labeler.unanswered?.map (w.err ++ ·) }
    liftFault result

def classifyGrid (run : RunArguments) (maxKinks? : Option Nat) (out : String)
    (table? : Option String) (kind : LabelerChoice) : Procedure Unit := do
  let c ← run.collect
  let d ← liftConfig c.grid
  let maxKinks ← match maxKinks?.or c.maxKinks? with
    | some maxKinks => pure maxKinks
    | none => throw .missingMaxKinks
  let m ← survey c d ⟨maxKinks, c.threads?⟩ kind
  putJson out (m.toJson Json.library)
  if let some path := table? then writeTable path m.records
  writeProvenance out table?.toList "classify"
    (.object [("config", c.toJson Json.library), ("max_kinks", .ofNat maxKinks),
      ("labeler", .text kind.name)])
    (m.total.toJson Json.library)

/-- The records and the tally of random boundaries, drawn with the indices from `index` on. -/
def sampleFrom (p : Pipeline Float Unit) (d : Grid Float) (kinks seed : Nat) :
    (count index : Nat) → Array Record → Tally → Except (Fault Float) (Array Record × Tally)
  | 0, _, records, tally => .ok (records, tally)
  | count + 1, index, records, tally => do
    let b ← GridBoundary.sample d kinks ⟨seed.toUInt64, index.toUInt64⟩
    let outcome := (p.labelGrid d b (.new () false)).1
    let tally := tally.note outcome
    match outcome with
    | .labeled record => sampleFrom p d kinks seed count (index + 1) (records.push record) tally
    | .failed _ fault =>
      if fault.isLocal then sampleFrom p d kinks seed count (index + 1) records tally
      else throw fault

def sampleGrid (run : RunArguments) (kinks count seed : Nat) (out : String) : Procedure Unit := do
  let c ← run.collect
  let d ← liftConfig c.grid
  let rule ← liftFault c.rule
  let p := gridPipeline c d rule.labeler
  liftFault p.validate
  let (records, tally) ← liftFault (sampleFrom p d kinks seed count 0 #[] .zero)
  let items := records.toList.map (Record.toJson Json.library)
  putJson out (Json.object [("dims", d.toJson Json.library), ("kinks", .ofNat kinks),
    ("seed", .ofNat seed), ("records", .list items)]).sorted
  writeProvenance out [] "sample"
    (.object [("config", c.toJson Json.library), ("kinks", .ofNat kinks), ("count", .ofNat count),
      ("seed", .ofNat seed)])
    (tally.toJson Json.library)

/-- The pipeline for a grid if one is given, and else for the canonical box. -/
def positivePipeline (c : RunSettings) (rule : EnvelopeRule Float) :
    Procedure (Pipeline Float Unit) := do
  if c.numX?.isSome ∨ c.xSpacing?.isSome then
    return gridPipeline c (← liftConfig c.grid) rule.labeler
  else return ⟨synthesizer c, rule.labeler, .canonical, c.inverts⟩

def showPositive (run : RunArguments) : Procedure Unit := do
  let c ← run.collect
  let rule ← liftFault c.rule
  let p ← positivePipeline c rule
  liftFault p.validate
  let b ← liftFault (p.positiveReference (.new () false)).1
  print ((Json.object [("boundary", .list (b.points.map (Point.toJson Json.library))),
    ("kinks", .ofNat (b.turnCount (Scalar.ofDecimal 1 9))), ("label", .bool true)]).pretty ++ "\n")

def summarizeTable (path : String) : Procedure Unit := do
  let files := ((← get).files.select? path).bind (·.mapM FileNode.stored?)
  match files.bind (Table.library.summarize? (Table.Format.ofPath path)) with
  | some totals => modify fun w => { w with totals? := some totals }
  | none => throw (.table path)

def reportDefaults : Procedure Unit := do
  let base : TraceConfig Float := .default
  let defaults := Json.object [
    ("trace", .object [("epsilon", .ofFloat base.epsilon), ("num_points", .ofNat base.numPoints)]),
    ("envelope", Envelope.canonical.toAnchors.toJson Json.library)]
  let doc := Json.object [("code_rev", .text (Provenance.revisionOf (← get).revision)),
    ("kinkmap_version", .text Provenance.version), ("defaults", defaults)]
  print (doc.sorted.pretty ++ "\n")

def Command.procedure : Command → Procedure Unit
  | .classify run maxKinks? out table? labeler => classifyGrid run maxKinks? out table? labeler
  | .sample run kinks count seed out => sampleGrid run kinks count seed out
  | .positive run => showPositive run
  | .summarize table => summarizeTable table
  | .report => reportDefaults

/-- Runs a command: its fault, if it fails, and the world after it. -/
def Command.run (command : Command) (w : World) : Option CommandFault × World :=
  match command.procedure.run.run w with
  | (.ok (), w) => (none, w)
  | (.error fault, w) => (some fault, w)

end BoundaryAtlas.CommandLine

import BoundaryAtlas.CommandLine.Execute
import BoundaryAtlas.Table.Columns

/-!
# The program

A command runs in a picture of the places on disk that its paths lead through. What it changed
in the picture is then changed on disk.
-/

namespace BoundaryAtlas.CommandLine

/-! ## The disk -/

def diskPath : Place → String
  | [] => "."
  | "/" :: names => "/" ++ "/".intercalate names
  | names => "/".intercalate names

/-- What the bytes of a file hold. Bytes that are no text are of no use to any command. -/
def nodeOfBytes (place : Place) (bytes : ByteArray) : FileNode :=
  let content := (String.fromUTF8? bytes).getD ""
  match Table.Format.ofPath (diskPath place) with
  | .commas => .text content
  | .columns =>
    match (Json.ofString? content).bind Table.ofColumnsJson? with
    | some rows => .columns rows
    | none => .text content

def load (place : Place) : IO (Option FileNode) := do
  match ← (IO.FS.readBinFile (diskPath place)).toBaseIO with
  | .ok bytes => return some (nodeOfBytes place bytes)
  | .error (.inappropriateType ..) => return some .folder
  | .error _ => return none

def save (place : Place) : FileNode → IO Unit
  | .folder => IO.FS.createDir (diskPath place)
  | .text content => IO.FS.writeFile (diskPath place) content
  | .columns rows => IO.FS.writeFile (diskPath place) (Table.columnsJson rows).compact

def RunArguments.paths (run : RunArguments) : List String :=
  run.config?.toList ++ run.envelope?.toList

/-- All paths that a command may read or write. -/
def Command.paths : Command → List String
  | .classify run _ out table? _ => run.paths ++ [out, Provenance.path out] ++ table?.toList
  | .sample run _ _ _ out => run.paths ++ [out, Provenance.path out]
  | .positive run => run.paths
  | .summarize table => [table]
  | .report => []

/-- The picture of all places that some paths lead through. Folders are not listed, so what is
not on the way of a path is not in the picture. -/
def picture (paths : List String) : IO FileSystem :=
  (paths.flatMap Place.walk).eraseDups.foldlM (fun fs place => do
    if place.isGiven then return fs
    match ← load place with
    | some node => return fs.set place node
    | none => return fs) ⟨[]⟩

/-- Changes on disk what differs between two pictures, in the order it was changed. -/
def commit (before after : FileSystem) : IO Unit :=
  after.nodes.reverse.forM fun (place, node) => do
    if before.nodes.lookup place ≠ some node then save place node

/-! ## The conversation -/

def Command.asks : Command → Bool
  | .classify _ _ _ _ labeler => labeler = .human
  | _ => false

/-- Runs a command again with one more line of input as long as a question is open. The first
`shown` characters of the text are on the screen. -/
partial def converse (command : Command) (w : World) (shown : Nat) :
    IO (Option CommandFault × World × Nat) := do
  let (fault, after) := command.run w
  match after.unanswered? with
  | none => return (fault, after, shown)
  | some text =>
    let stderr ← IO.getStderr
    stderr.putStr (String.ofList (text.toList.drop shown))
    stderr.flush
    let line ← (← IO.getStdin).getLine
    if line.isEmpty then return (fault, after, text.length)
    else converse command { w with input := w.input ++ line.toUTF8.toList } text.length

/-- Runs a command that takes its answers from a person or from a file. -/
def runWithInput (command : Command) (w : World) : IO (Option CommandFault × World × Nat) := do
  let stdin ← IO.getStdin
  if !command.asks then
    let (fault, after) := command.run w
    return (fault, after, 0)
  else if ← stdin.isTty then converse command w 0
  else
    let bytes ← stdin.readBinToEnd
    let (fault, after) := command.run { w with input := bytes.toList }
    return (fault, after, 0)

def usage : String :=
  "usage: [--verbose] classify | sample | positive | summarize | report [options]\n" ++
  "  classify   --out FILE [--max-kinks N] [--table FILE] [--labeler polygon|human]\n" ++
  "             [--trace-draws]\n" ++
  "  sample     --out FILE --kinks N [--count N] [--seed N]\n" ++
  "  summarize  --table FILE\n" ++
  "  grid and run: [--config FILE] [--x-spacing X] [--num-x N] [--y-spacing Y] [--num-y N]\n" ++
  "    [--epsilon X] [--num-points N] [--rate-bound X] [--timeout-ms N] [--threads N]\n" ++
  "    [--envelope FILE] [--invert] [--pointwise-lower]\n"

/-- Runs a command on disk. -/
def execute (command : Command) : IO UInt32 := do
  let files ← picture command.paths
  let revision := (← IO.getEnv "GIT_COMMIT").getD ""
  let (fault, after, shown) ← runWithInput command { files, input := [], revision }
  commit files after.files
  IO.print after.out
  if let some totals := after.totals? then IO.print totals.toText
  IO.eprint (String.ofList (after.err.toList.drop shown))
  match fault with
  | none => return 0
  | some fault =>
    IO.eprint fault.report
    return 1

/-- Reads the arguments and runs the command that they name. -/
def runArguments (args : List String) : IO UInt32 := do
  match Command.ofArgs [] args with
  | .error .help =>
    IO.print usage
    return 0
  | .error .usage =>
    IO.eprint usage
    return 2
  | .ok command => execute command

end BoundaryAtlas.CommandLine

def main (args : List String) : IO UInt32 := BoundaryAtlas.CommandLine.runArguments args

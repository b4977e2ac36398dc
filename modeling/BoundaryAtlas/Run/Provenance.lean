import BoundaryAtlas.Files.Path
import BoundaryAtlas.Json.Printer

/-!
# Provenance

Beside every artefact stands a file that says how it was made: the revision of the code, the
command with its parameters, a summary, and all files that were written.
-/

namespace BoundaryAtlas

/-- How an artefact was made. -/
structure Provenance where
  revision : String
  command : String
  params : Json
  summary : Json
  outputs : List String

namespace Provenance

/-- The version that is written to every file. -/
def version : String := "0.1.0"

/-- The path beside an artefact, with its stem. -/
def path (artefact : String) : String :=
  Path.withFileName artefact ((Path.stem? artefact).getD "artefact" ++ ".provenance.json")

/-- The revision of the code, from the environment. -/
def revisionOf (given : String) : String := if given.isEmpty then "unknown" else given

def toJson (p : Provenance) : Json :=
  (Json.object [("code_rev", .text p.revision), ("kinkmap_version", .text version),
    ("command", .text p.command), ("params", p.params), ("summary", p.summary),
    ("outputs", .list (p.outputs.map .text))]).sorted

end Provenance

end BoundaryAtlas

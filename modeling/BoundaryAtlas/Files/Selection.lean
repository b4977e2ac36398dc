import BoundaryAtlas.Files.Pattern
import BoundaryAtlas.Files.System

/-!
# Selected files

A path may name more than one file: a folder stands for all files below it, and a pattern for
all files that match it. Files without content are left out of both.
-/

namespace BoundaryAtlas

/-- The names from one place to another below it. -/
def Place.namesBelow? (place inner : Place) : Option (List String) :=
  let names := inner.drop place.length
  if place.isPrefixOf inner ∧ names.head?.all (fun name => name ≠ ".." ∧ name ≠ "/") then some names
  else none

namespace FileSystem

/-- The names that lead from a place to all that stands below it. -/
def below (fs : FileSystem) (place : Place) : List (List String) :=
  (fs.nodes.filterMap fun (inner, _) => place.namesBelow? inner).filter (· ≠ [])

/-- The names that lead from a path to all that stands below it, if it is a folder. -/
def namesBelow (fs : FileSystem) (path : String) : List (List String) :=
  match fs.isFolder path, fs.resolve path with
  | true, .ok place => fs.below place
  | _, _ => []

/-- The file at a path, if it has content. -/
def fileAt? (fs : FileSystem) (path : String) : Option FileNode :=
  (fs.read path).toOption.filter (· ≠ .text "")

/-! ## Folders -/

/-- All files below a folder. Their extensions have to agree unless the path looks like a
pattern. -/
def selectFolder? (fs : FileSystem) (path : String) : Option (List FileNode) :=
  let found := (fs.namesBelow path).filterMap fun names =>
    (fs.fileAt? (names.foldl Path.join path)).map fun node => (names.getLast?, node)
  match (found.map fun file => (file.1.bind Path.extension?).getD "").eraseDups with
  | _ :: _ :: _ => if Pattern.isPattern path then some (found.map (·.2)) else none
  | _ => some (found.map (·.2))

/-! ## Patterns -/

/-- The path to a name in a folder. Where a path only says that it stays, it is left out. -/
def pathTo (path name : String) : String :=
  if Path.isHere path then name else Path.join path name

mutual

/-- The paths along some steps from a path on. A path that is found in several ways is there
several times. -/
def search (fs : FileSystem) (path : String) : List Pattern.Step → List String
  | [] => [path]
  | .name text :: steps =>
    let next := pathTo path text
    let found :=
      if text = "." ∨ text = ".." then fs.isFolder path else (fs.find next).toOption.isSome
    if found then fs.search next steps else []
  | .wild pieces :: steps =>
    let inside := (fs.namesBelow path).filterMap fun names =>
      match names with
      | [name] => if Pattern.matchesName pieces name.toList then some (pathTo path name) else none
      | _ => none
    let dots := (Pattern.dotNames pieces).map (Path.join path)
    ((if fs.isFolder path then dots else []) ++ inside).flatMap fun next => fs.search next steps
  | .folders :: steps =>
    (fs.namesBelow path).flatMap fun names =>
      fs.searchAt (names.foldl pathTo path) (names.getLastD "") steps

/-- The paths along some steps, the first of which is the last name of the path. -/
def searchAt (fs : FileSystem) (path name : String) : List Pattern.Step → List String
  | [] => []
  | .folders :: steps => fs.searchAt path name steps
  | step :: steps => if step.accepts name then fs.search path steps else []

end

/-- All files that match a pattern. A slash at its end wants folders, and those are left out. -/
def selectPattern? (fs : FileSystem) (path : String) : Option (List FileNode) :=
  (Pattern.steps? path).map fun steps =>
    if path.endsWith "/" then []
    else (fs.search (if path.startsWith "/" then "/" else ".") steps).filterMap fs.fileAt?

/-! ## Both -/

/-- The files that a path names, at least one. -/
def select? (fs : FileSystem) (path : String) : Option (List FileNode) :=
  let found? :=
    if fs.isFolder path then fs.selectFolder? path
    else if Pattern.isPattern path then fs.selectPattern? path
    else (fs.read path).toOption.map ([·])
  found?.filter (· ≠ [])

end FileSystem

end BoundaryAtlas

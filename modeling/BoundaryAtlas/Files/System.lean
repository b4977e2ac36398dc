import BoundaryAtlas.Table.Summary

/-!
# Files

A file system is a list of places with what stands there, seen from one folder. A path is
walked step by step. Operations fail for the reasons an operating system has.
-/

namespace BoundaryAtlas

/-- Why a file operation failed. -/
inductive FileError where
  | notFound
  | alreadyExists
  | notAFolder
  | isAFolder
  | nameTooLong
  | nulInPath
  deriving DecidableEq, Repr

def FileError.message : FileError → String
  | .notFound => "No such file or directory (os error 2)"
  | .alreadyExists => "File exists (os error 17)"
  | .notAFolder => "Not a directory (os error 20)"
  | .isAFolder => "Is a directory (os error 21)"
  | .nameTooLong => "File name too long (os error 36)"
  | .nulInPath => "file name contained an unexpected NUL byte"

/-- What stands at a place. -/
inductive FileNode where
  | folder
  | text (content : String)
  /-- A table in columns. -/
  | columns (rows : List Table.Row)
  deriving DecidableEq, Repr

/-- The table that a file holds. -/
def FileNode.stored? : FileNode → Option Table.Stored
  | .folder => none
  | .text content => some (.text content.toList)
  | .columns rows => some (.columns rows)

/-! ## Places -/

/-- The names that lead to a place, from the starting folder, or from the root if the first
name is a slash. -/
abbrev Place := List String

namespace Place

/-- The place where a path begins. -/
def origin (path : String) : Place := if path.startsWith "/" then ["/"] else []

/-- The place that one part of a path leads to. Two dots lead one folder up. -/
def step (place : Place) (part : String) : Place :=
  if part = "." then place
  else if part = ".." then
    match place.getLast? with
    | none | some ".." => place ++ [".."]
    | some "/" => place
    | some _ => place.dropLast
  else place ++ [part]

/-- The place is the root, or the starting folder, or above it. -/
def isGiven (place : Place) : Bool := place = ["/"] || place.all (· = "..")

/-- All places that a path leads through. -/
def walk (path : String) : List Place :=
  let steps := Path.steps path
  (List.range (steps.length + 1)).map fun count => (steps.take count).foldl step (origin path)

end Place

/-- Places and what stands there. -/
structure FileSystem where
  nodes : List (Place × FileNode)
  deriving DecidableEq, Repr

namespace FileSystem

def node? (fs : FileSystem) (place : Place) : Option FileNode :=
  if place.isGiven then some .folder else fs.nodes.lookup place

def set (fs : FileSystem) (place : Place) (node : FileNode) : FileSystem :=
  ⟨(place, node) :: fs.nodes.filter (·.1 ≠ place)⟩

/-! ## Operations -/

/-- A path has no NUL in it and less than 4096 bytes. -/
def checkPath (path : String) : Except FileError Unit :=
  if Char.ofNat 0 ∈ path.toList then .error .nulInPath
  else if 4096 ≤ path.utf8ByteSize then .error .nameTooLong
  else .ok ()

/-- A name has 255 bytes or less. -/
def checkName (name : String) : Except FileError Unit :=
  if 255 < name.utf8ByteSize then .error .nameTooLong else .ok ()

def checkFolder (fs : FileSystem) (place : Place) : Except FileError Unit :=
  match fs.node? place with
  | some .folder => .ok ()
  | some _ => .error .notAFolder
  | none => .error .notFound

/-- The place that some parts of a path lead to. Each of them needs a folder to start from. -/
def follow (fs : FileSystem) (place : Place) (parts : List String) : Except FileError Place :=
  parts.foldlM (fun place part => do
    fs.checkFolder place
    checkName part
    return place.step part) place

/-- The place that a path leads to. -/
def resolve (fs : FileSystem) (path : String) : Except FileError Place := do
  checkPath path
  if path.isEmpty then throw .notFound
  fs.follow (Place.origin path) (Path.steps path)

/-- What a path leads to. A slash at its end wants a folder. -/
def find (fs : FileSystem) (path : String) : Except FileError FileNode := do
  match fs.node? (← fs.resolve path) with
  | none => throw .notFound
  | some node => if path.endsWith "/" ∧ node ≠ .folder then throw .notAFolder else return node

def isFolder (fs : FileSystem) (path : String) : Bool := (fs.find path).toOption = some .folder

/-- The content of a file. -/
def read (fs : FileSystem) (path : String) : Except FileError FileNode := do
  match ← fs.find path with
  | .folder => throw .isAFolder
  | node => return node

/-- The folder that the last part of a path is looked for in, and that part if it is a name. -/
def lastStep (fs : FileSystem) (path : String) : Except FileError (Place × Option String) := do
  checkPath path
  if path.isEmpty then throw .notFound
  let steps := Path.steps path
  let place ← fs.follow (Place.origin path) steps.dropLast
  fs.checkFolder place
  return (place, steps.getLast?.filter fun part => part ≠ "." ∧ part ≠ "..")

/-- Puts a file into a folder that is there. A slash at the end of the path wants a folder. -/
def write (fs : FileSystem) (path : String) (node : FileNode) : Except FileError FileSystem := do
  match ← fs.lastStep path with
  | (_, none) => throw .isAFolder
  | (place, some name) =>
    if path.endsWith "/" then throw .isAFolder
    checkName name
    if fs.node? (place.step name) = some .folder then throw .isAFolder
    return fs.set (place.step name) node

/-- Makes a folder in a folder that is there. -/
def makeFolder (fs : FileSystem) (path : String) : Except FileError FileSystem := do
  match ← fs.lastStep path with
  | (_, none) => throw .alreadyExists
  | (place, some name) =>
    checkName name
    if (fs.node? (place.step name)).isSome then throw .alreadyExists
    return fs.set (place.step name) .folder

/-- Makes a folder unless it is there. -/
def makeMissingFolder (fs : FileSystem) (path : String) : Except FileError Unit × FileSystem :=
  match fs.makeFolder path with
  | .ok fs => (.ok (), fs)
  | .error error => (if fs.isFolder path then .ok () else .error error, fs)

/-- Makes a folder and, if need be, first the folder that it is to stand in. What was made
before an error stays. -/
def makeFolders (fs : FileSystem) (path : String) : Except FileError Unit × FileSystem :=
  if path.isEmpty then (.ok (), fs)
  else
    match fs.makeFolder path with
    | .error .notFound =>
      match h : Path.parent? path with
      | none => (.error .notFound, fs)
      | some parent =>
        have := Path.length_parent?_lt h
        match fs.makeFolders parent with
        | (.error error, fs) => (.error error, fs)
        | (.ok (), fs) => fs.makeMissingFolder path
    | _ => fs.makeMissingFolder path
termination_by path.length

end FileSystem

end BoundaryAtlas

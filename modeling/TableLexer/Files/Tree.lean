import TableLexer.Files.Error
import TableLexer.Files.Path
namespace TableLexer

inductive FileNode where
  | file (content : ByteArray)
  | directory

/-- The segments from the root down. -/
abbrev Location := List String

/-- Files and directories below a root, which is also the working directory. -/
structure FileTree where
  nodes : List (Location × FileNode)

namespace FileTree

def empty : FileTree := ⟨[]⟩

def get? (t : FileTree) (location : Location) : Option FileNode :=
  if location.isEmpty then some .directory else t.nodes.lookup location

def put (t : FileTree) (location : Location) (node : FileNode) : FileTree :=
  ⟨(location, node) :: t.nodes.filter fun entry => entry.1 != location⟩

/-- Follows segments from a location. All that is passed through must be a directory. -/
def walk (t : FileTree) (location : Location) : List String → Except OsError Location
  | [] => .ok location
  | s :: rest =>
    match t.get? location with
    | none => .error .notFound
    | some (.file _) => .error .notDirectory
    | some .directory =>
      if Path.isVoid s then t.walk location rest
      else if s = ".." then t.walk location.dropLast rest
      else t.walk (location ++ [s]) rest

def read (t : FileTree) (path : String) : Except OsError ByteArray := do
  if path = "" then throw .notFound
  match t.get? (← t.walk [] (Path.segments path)) with
  | none => throw .notFound
  | some .directory => throw .isDirectory
  | some (.file content) => return content

def readText (t : FileTree) (path : String) : Except ReadError String :=
  ReadError.textOf (t.read path)

/-- The directory that a path's last segment is looked up in, that segment, and whether nothing
but slashes stands behind it. -/
structure Place where
  directory : Location
  name : String
  bare : Bool
deriving DecidableEq, Repr

def place (t : FileTree) (path : String) : Except OsError Place := do
  if path = "" then throw .notFound
  let segments := Path.segments path
  let core := (segments.reverse.dropWhile fun s => s = "").reverse
  let directory ← t.walk [] (core.dropLast ++ [""])
  return ⟨directory, core.getLastD "", segments = core⟩

/-- Whether the place has a name that a new entry could take. -/
def Place.isNew (p : Place) : Bool := !Path.isVoid p.name && p.name != ".."

def Place.location (p : Place) : Location := p.directory ++ [p.name]

/-- Creates or replaces a file. A path that ends in a slash names no file. -/
def write (t : FileTree) (path : String) (content : ByteArray) : Except OsError FileTree := do
  let p ← t.place path
  if !p.isNew || !p.bare then throw .isDirectory
  match t.get? p.location with
  | some .directory => throw .isDirectory
  | _ => return t.put p.location (.file content)

/-- Puts something behind the content of a file. -/
def append (t : FileTree) (path : String) (data : ByteArray) : Except OsError FileTree := do
  t.write path ((← t.read path) ++ data)

def isDirectory (t : FileTree) (path : String) : Bool :=
  match t.walk [] (Path.segments path) with
  | .error _ => false
  | .ok location =>
    match t.get? location with
    | some .directory => path != ""
    | _ => false

def makeDirectory (t : FileTree) (path : String) : Except OsError FileTree := do
  let p ← t.place path
  if !p.isNew || (t.get? p.location).isSome then throw .alreadyExists
  return t.put p.location .directory

/-- A tree after a change that may have got stuck half-way. -/
abbrev Changed := FileTree × Option OsError

/-- What is already a directory need not be made. -/
def unlessDirectory (t : FileTree) (path : String) (e : OsError) : Changed :=
  if t.isDirectory path then (t, none) else (t, some e)

def makeUpwards (t : FileTree) : List String → Changed
  | [] => (t, none)
  | path :: above =>
    match t.makeDirectory path with
    | .ok t => (t, none)
    | .error .notFound =>
      match t.makeUpwards above with
      | (t, some e) => (t, some e)
      | (t, none) =>
        match t.makeDirectory path with
        | .ok t => (t, none)
        | .error e => t.unlessDirectory path e
    | .error e => t.unlessDirectory path e

/-- Creates a directory and those it lies in, as far as they are missing. -/
def makeDirectories (t : FileTree) (path : String) : Changed := t.makeUpwards (Path.ancestors path)

end FileTree

end TableLexer

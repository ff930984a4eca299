import PlanReplay.Host.FileError
import PlanReplay.Host.Path
import PlanReplay.Ordered.Map
import PlanReplay.Text.Utf8

/-!
# File trees

A model of the files of a machine: directories and files under one root, and a current directory. The
operations fail for the reasons for which those of the machine do.
-/

namespace PlanReplay

/-- What a name of a file tree stands for. A file with content that is no text has bytes. -/
inductive FileNode where
  | directory
  | file (content : String)
  | binary (content : List UInt8)
  /-- A file that can be run. -/
  | program (name : String)
deriving DecidableEq

/-- A file with any bytes. -/
def FileNode.ofBytes (bytes : List UInt8) : FileNode :=
  match Text.decode? bytes with
  | some text => .file text
  | none => .binary bytes

/-- The names from the root on that lead to a directory or a file. -/
abbrev Location := List String

/-- Directories and files by their location, and the current directory. -/
structure FileTree where
  current : Location
  nodes : OrderedMap Location FileNode

namespace FileTree

/-- What is at a location. The root is a directory. -/
def node? (t : FileTree) (location : Location) : Option FileNode :=
  if location = [] then some .directory else t.nodes.get? location

/-- The tree with something put at a location. -/
def put (t : FileTree) (location : Location) (node : FileNode) : FileTree :=
  { t with nodes := t.nodes.insert location node }

/-- The longest name of a file, in bytes. -/
def longestName : Nat := 255

/-- The longest path that the system follows, in bytes. -/
def longestPath : Nat := 4095

/-- Follows names from a location. Every name but the last must be one of a directory. -/
def follow (t : FileTree) (here : Location) : List String → Except FileError Location
  | [] => .ok here
  | name :: rest =>
    match t.node? here with
    | none => .error .notFound
    | some .directory =>
      if Path.isSelf name then t.follow here rest
      else if name = ".." then t.follow here.dropLast rest
      else if longestName < name.utf8ByteSize then .error .nameTooLong
      else t.follow (here ++ [name]) rest
    | some _ => .error .notDirectory

/-- Where a path begins. -/
def startOf (t : FileTree) (path : String) : Location := if Path.isAbsolute path then [] else t.current

/-- The location of a path, however long the path is. -/
def resolve (t : FileTree) (path : String) : Except FileError Location :=
  if path.toList.contains '\x00' then .error .nulInName
  else if path = "" then .error .notFound
  else t.follow (t.startOf path) (Path.names path)

/-- The location of a path that the system follows. -/
def locate (t : FileTree) (path : String) : Except FileError Location :=
  if !path.toList.contains '\x00' && longestPath < path.utf8ByteSize then .error .nameTooLong else t.resolve path

/-- What is at a path. -/
def nodeAt? (t : FileTree) (path : String) : Option FileNode :=
  match t.locate path with
  | .ok location => t.node? location
  | .error _ => none

def isFile (t : FileTree) (path : String) : Bool :=
  match t.nodeAt? path with
  | some .directory | none => false
  | some _ => true

def pathExists (t : FileTree) (path : String) : Bool := (t.nodeAt? path).isSome

/-- The absolute path of what exists at a path. It is found name by name, so that only the names have to be short. -/
def canonicalPath (t : FileTree) (path : String) : Option String :=
  match t.resolve path with
  | .ok location => if (t.node? location).isSome then some ("/" ++ "/".intercalate location) else none
  | .error _ => none

/-- Creates the directories along names from a location, which is a directory; `made` says whether one of them
was missing so far. Directories that were created before a failure stay. A file in the way is no directory to go
through, unless the last name or a missing directory before it made the system try to create one in its place. -/
def createAlong (t : FileTree) (here : Location) (made : Bool) : List String → Except FileError Unit × FileTree
  | [] => (.ok (), t)
  | name :: rest =>
    if Path.isSelf name then t.createAlong here made rest
    else if name = ".." then t.createAlong here.dropLast made rest
    else if longestName < name.utf8ByteSize then (.error .nameTooLong, t)
    else
      let inner := here ++ [name]
      match t.node? inner with
      | some .directory => t.createAlong inner made rest
      | none => (t.put inner .directory).createAlong inner true rest
      | some _ => (.error (if made || rest.all (· = "") then .alreadyExists else .notDirectory), t)

/-- Creates a directory, and those around it that do not exist yet. -/
def createDirectories (t : FileTree) (path : String) : Except FileError Unit × FileTree :=
  if path.toList.contains '\x00' then (.error .nulInName, t)
  else if longestPath < path.utf8ByteSize then (.error .nameTooLong, t)
  else t.createAlong (t.startOf path) false (Path.names path)

/-- The text in a file. -/
def readFile (t : FileTree) (path : String) : Except FileError String :=
  match t.locate path with
  | .error error => .error error
  | .ok location =>
    match t.node? location with
    | none => .error .notFound
    | some .directory => .error .isDirectory
    | some (.file content) => .ok content
    | some _ => .error .notText

/-- Puts a file at a path; the directory around it must exist. -/
def putFile (t : FileTree) (path : String) (node : FileNode) : Except FileError FileTree :=
  match t.locate path with
  | .error error => .error error
  | .ok location =>
    match t.node? location with
    | some .directory => .error .isDirectory
    | _ => .ok (t.put location node)

/-- Writes a text to a file. -/
def writeFile (t : FileTree) (path content : String) : Except FileError FileTree := t.putFile path (.file content)

/-- Removes a file. -/
def removeFile (t : FileTree) (path : String) : Except FileError FileTree :=
  match t.locate path with
  | .error error => .error error
  | .ok location =>
    match t.node? location with
    | none => .error .notFound
    | some .directory => .error .isDirectory
    | some _ => .ok { t with nodes := t.nodes.erase location }

/-- Renames a file; a file that has the new name is replaced. -/
def renameFile (t : FileTree) (source target : String) : Except FileError FileTree :=
  match t.locate source, t.locate target with
  | .error error, _ | _, .error error => .error error
  | .ok location, .ok goal =>
    match t.node? location with
    | none => .error .notFound
    | some .directory => .error .isDirectory
    | some node =>
      if t.node? goal = some .directory then .error .isDirectory
      else .ok ({ t with nodes := t.nodes.erase location }.put goal node)

end FileTree

end PlanReplay

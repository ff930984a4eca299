import PlanReplay.Host.FileTree

/-!
# Launching programs

How a system finds the program to run. A name with a slash is the path of the program. Any other name is looked
up in the directories of a search path, and the first program of that name is taken; a file of that name that
cannot be run is passed over, but remembered as the reason if there is no program.
-/

namespace PlanReplay.FileTree

/-- The program at a path. -/
def programAt (t : FileTree) (path : String) : Except FileError String :=
  match t.locate path with
  | .error error => .error error
  | .ok location =>
    match t.node? location with
    | none => .error .notFound
    | some (.program name) => .ok name
    | some _ => .error .permissionDenied

/-- The program with a name in the first directory that has one. -/
def searchProgram (t : FileTree) (name : String) (refused : Bool) : List String → Except FileError String
  | [] => .error (if refused then .permissionDenied else .notFound)
  | directory :: rest =>
    match t.programAt (Path.join directory name) with
    | .error .permissionDenied => t.searchProgram name true rest
    | .error .notFound | .error .notDirectory => t.searchProgram name refused rest
    | outcome => outcome

/-- The program that a name stands for. -/
def findProgram (t : FileTree) (searchPath : List String) (name : String) : Except FileError String :=
  if name = "" || name.toList.contains '/' then t.programAt name
  else if longestName < name.utf8ByteSize then .error .nameTooLong
  else t.searchProgram name false searchPath

/-- The program that runs when a command is given: its name, then its arguments. -/
def launch (t : FileTree) (searchPath : List String) (command : List String) : Except FileError String :=
  if command.any (·.toList.contains '\x00') then .error .nulInArgument
  else t.findProgram searchPath (command.head?.getD "")

end PlanReplay.FileTree

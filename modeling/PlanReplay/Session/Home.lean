import PlanReplay.Artifacts.Store
import PlanReplay.Selection

/-!
# The home of a session

The directory under which a session finds domain files and leaves its artifacts: the one that is asked for, else
the one that the environment names, else one inside the current directory.
-/

namespace PlanReplay

open Text

/-- What a session finds in its surroundings. The number of the writer tells sessions apart that run at the same
time. -/
structure Environment where
  home : Option String
  speed : Option String
  currentDirectory : String
  writer : Nat

/-- The variable of the environment that names the home. -/
def homeVariable : String := "PLANVIS_HOME"

/-- The variable of the environment that holds a speed. -/
def speedVariable : String := "PLANVIS_SPEED"

/-- The home inside the current directory. -/
def defaultHome : String := ".planvis"

/-- Why a session has no home. -/
inductive StartupError where
  | uncreatable (path : String) (error : FileError)
  /-- The environment names no directory, but nothing or a file. -/
  | unusableHome (path : String)
deriving DecidableEq

def StartupError.message : StartupError → String
  | .uncreatable path error => "failed to create directory at " ++ path ++ ": " ++ error.message
  | .unusableHome path =>
    homeVariable ++ " is set but does not point to a usable directory: " ++ path ++
      "\nSet it to an existing directory or unset it to use ./" ++ defaultHome ++ "."

/-- The directories of a session. -/
structure RunPaths where
  domains : String
  generated : String
  cache : String
deriving DecidableEq

namespace RunPaths

def ofHome (home : String) : RunPaths := ⟨Path.join home "domains", Path.join home "generated", Path.join home "cache"⟩

/-- The file of a domain that is not given otherwise. -/
def domainFile (p : RunPaths) (selection : Selection) : String := Path.join p.domains selection.fileName

/-- The artifacts of a writer. -/
def store (p : RunPaths) (writer : Nat) : ArtifactStore := ⟨p.generated, p.cache, writer⟩

/-- The absolute path of what exists at a path; a path where nothing exists stays as it is. -/
def settled (path : String) : Script String := do
  return (← .request (.canonicalPath path)).getD path

/-- The home that the environment names, or the default one. -/
def environmentHome (env : Environment) : Script (Except StartupError String) := do
  match env.home with
  | none => return .ok (Path.join env.currentDirectory defaultHome)
  | some named =>
    let path := trim named
    if path = "" then return .error (.unusableHome path)
    if ← .request (.isFile path) then return .error (.unusableHome path)
    return .ok (← settled path)

/-- Creates directories, in order. -/
def createAll : List String → Script (Except StartupError Unit)
  | [] => return .ok ()
  | path :: rest => do
    match ← .request (.createDirectories path) with
    | .error error => return .error (.uncreatable path error)
    | .ok () => createAll rest

/-- The directories of a session. Those of its artifacts are created. -/
def resolve (env : Environment) (home : Option String) : Script (Except StartupError RunPaths) := do
  let found ←
    match home with
    | some path => pure (.ok (← settled path))
    | none => environmentHome env
  match found with
  | .error error => return .error error
  | .ok home =>
    let paths := ofHome home
    match ← createAll [paths.generated, paths.cache] with
    | .error error => return .error error
    | .ok () => return .ok paths

end RunPaths

end PlanReplay

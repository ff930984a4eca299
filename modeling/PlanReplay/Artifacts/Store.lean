import PlanReplay.Artifacts.CacheEntry
import PlanReplay.Artifacts.CacheKey
import PlanReplay.Host.Publish

/-!
# The artifacts of a session

A session leaves files behind: the problem it generated, the plan it replayed, and the responses of planners,
which later sessions can use again.
-/

namespace PlanReplay

/-- Why an artifact is not written or read. -/
inductive ArtifactError where
  | unreadable (path : String) (error : FileError)
  | unwritable (path : String) (error : FileError)
deriving DecidableEq

def ArtifactError.message : ArtifactError → String
  | .unreadable path error => "failed to read " ++ path ++ ": " ++ error.message
  | .unwritable path error => "failed to write " ++ path ++ ": " ++ error.message

/-- What the cache has for a key. -/
inductive CacheState where
  | missing
  /-- There is a file, and it holds no entry of this version for this key. -/
  | unreadable
  | present (response : PlannerResponse)
deriving DecidableEq

/-- The directories of artifacts, and the number of the writer that puts files there. -/
structure ArtifactStore where
  generated : String
  cache : String
  writer : Nat
deriving DecidableEq

namespace ArtifactStore

def problemPath (s : ArtifactStore) : String := Path.join s.generated "problem.pddl"

def planPath (s : ArtifactStore) : String := Path.join s.generated "output_plan.txt"

/-- The file of a cached response. -/
def entryPath (s : ArtifactStore) (key : String) : String :=
  Path.join (Path.join s.cache "plans") (key ++ ".json")

/-- Publishes a text at a path, and returns the path. -/
def write (s : ArtifactStore) (path content : String) : Script (Except ArtifactError String) := do
  match ← publish s.writer path content with
  | .ok () => return .ok path
  | .error error => return .error (.unwritable path error)

def writeProblem (s : ArtifactStore) (pddl : String) : Script (Except ArtifactError String) :=
  s.write s.problemPath pddl

/-- Writes a planner's text as it is. -/
def writePlan (s : ArtifactStore) (text : String) : Script (Except ArtifactError String) := s.write s.planPath text

/-- Keeps a planner's response under a key. -/
def storeResponse (s : ArtifactStore) (key : String) (response : PlannerResponse) :
    Script (Except ArtifactError String) :=
  s.write (s.entryPath key) (CacheEntry.render ⟨cacheFormatVersion, key, response⟩)

/-- Looks up the response that is kept under a key. -/
def cachedResponse (s : ArtifactStore) (key : String) : Script (Except ArtifactError CacheState) := do
  let path := s.entryPath key
  if ← .request (.pathExists path) then
    match ← .request (.readFile path) with
    | .error error => return .error (.unreadable path error)
    | .ok text =>
      match CacheEntry.responseFor? key text with
      | some response => return .ok (.present response)
      | none => return .ok .unreadable
  else
    return .ok .missing

end ArtifactStore

end PlanReplay

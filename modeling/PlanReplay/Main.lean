import PlanReplay.Session.Execute

/-!
# The program

Carries out the command of the command line against the files of the machine. No planner is built in: a
session asks the cache, and reports that there is no planner when the cache has no answer.
-/

namespace PlanReplay

/-- The file error of a failed operation. -/
def FileError.ofIO : IO.Error → FileError
  | .noFileOrDirectory _ _ _ | .noSuchThing _ _ _ => .notFound
  | .alreadyExists _ _ _ => .alreadyExists
  | .inappropriateType _ 20 _ => .notDirectory
  | .inappropriateType _ 21 _ => .isDirectory
  | .permissionDenied _ 13 _ => .permissionDenied
  | .invalidArgument _ 36 _ => .nameTooLong
  | error => .other (toString error)

/-- Runs an operation on files. -/
def tryFiles {τ : Type} (operation : IO τ) : IO (Except FileError τ) := do
  try
    return .ok (← operation)
  catch error =>
    return .error (.ofIO error)

/-- The machine's reply to a request. -/
def Request.reply : (r : Request) → IO r.Reply
  | .canonicalPath path => do
    try
      return some (← IO.FS.realPath path).toString
    catch _ =>
      return none
  | .isFile path => do
    try
      return (← IO.FS.readFile path).length ≥ 0
    catch _ =>
      return false
  | .pathExists path => do
    try
      let _ ← IO.FS.realPath path
      return true
    catch _ =>
      return false
  | .createDirectories path => tryFiles (IO.FS.createDirAll path)
  | .readFile path => tryFiles (IO.FS.readFile path)
  | .writeFile path content => tryFiles (IO.FS.writeFile path content)
  | .renameFile source target => tryFiles (IO.FS.rename source target)
  | .removeFile path => tryFiles (IO.FS.removeFile path)
  | .askPlanner _ => return .error (.unavailable "no planner is built in")
  | .print text => tryFiles (IO.print text)
  | .now => IO.monoNanosNow
  | .pause nanos => IO.sleep (nanos / 1000000).toUInt32

/-- Runs a script on the machine. -/
def Script.perform {τ : Type} : Script τ → IO τ
  | .done result => return result
  | .ask request next => do
    let reply ← request.reply
    (next reply).perform

end PlanReplay

open PlanReplay

def main (args : List String) : IO UInt32 := do
  match CommandLine.parse args with
  | .error error =>
    IO.eprintln error.message
    return 1
  | .ok .help =>
    IO.println usage
    return 0
  | .ok command =>
    let env : Environment :=
      ⟨← IO.getEnv homeVariable, ← IO.getEnv speedVariable, (← IO.currentDir).toString, ← IO.monoNanosNow⟩
    match ← (Session.execute (twoTo 62) env command).perform with
    | .error (.refused error) =>
      IO.eprintln error.message
      return 1
    | .error (.crashed _) => return 101
    | .ok () => return 0

import PlanReplay.Host.Path
import PlanReplay.Host.Script

/-!
# Publishing files

A file is published by writing it under another name beside its place and renaming it, so that whoever reads
the place finds the old content or the new one and nothing in between. Writers with different numbers use
different names.
-/

namespace PlanReplay

/-- Publishes a text at a path. If that fails, what was prepared is removed. -/
def publish (writer : Nat) (path content : String) : Script (Except FileError Unit) := do
  match ← .request (.createDirectories (Path.directory path)) with
  | .error error => return .error error
  | .ok () =>
    let staging := Path.staging writer path
    let outcome ←
      match ← .request (.writeFile staging content) with
      | .error error => pure (.error error)
      | .ok () => .request (.renameFile staging path)
    match outcome with
    | .ok () => return .ok ()
    | .error error =>
      let _ ← .request (.removeFile staging)
      return .error error

end PlanReplay

import PlanReplay.Host.FileTree
import PlanReplay.Host.Script

/-!
# Machines

A model of the host of a session: files, a planner, what was printed, and a clock that goes on only when a
script pauses. `Machine.reply` is how it answers requests; with it, `Script.run` runs a script on a machine.
-/

namespace PlanReplay

/-- The host of a session. The planner may read the files that it is called with. The calls of the planner and
the printed texts are kept, the last one first. -/
structure Machine where
  tree : FileTree
  planner : FileTree → PlannerCall → Except PlannerFailure PlannerResponse
  calls : List PlannerCall
  printed : List String
  clock : Nat

namespace Machine

/-- A machine on which nothing has happened yet. -/
def fresh (tree : FileTree) (planner : FileTree → PlannerCall → Except PlannerFailure PlannerResponse) : Machine :=
  ⟨tree, planner, [], [], 0⟩

/-- The outcome of a change of the files. A change that fails leaves them as they are. -/
def change (m : Machine) : Except FileError FileTree → Except FileError Unit × Machine
  | .ok tree => (.ok (), { m with tree := tree })
  | .error error => (.error error, m)

/-- The reply to a request, and the machine after it. -/
def reply : (r : Request) → Machine → r.Reply × Machine
  | .canonicalPath path, m => (m.tree.canonicalPath path, m)
  | .isFile path, m => (m.tree.isFile path, m)
  | .pathExists path, m => (m.tree.pathExists path, m)
  | .createDirectories path, m =>
    let (outcome, tree) := m.tree.createDirectories path
    (outcome, { m with tree := tree })
  | .readFile path, m => (m.tree.readFile path, m)
  | .writeFile path content, m => m.change (m.tree.writeFile path content)
  | .renameFile source target, m => m.change (m.tree.renameFile source target)
  | .removeFile path, m => m.change (m.tree.removeFile path)
  | .askPlanner call, m => (m.planner m.tree call, { m with calls := call :: m.calls })
  | .print text, m => (.ok (), { m with printed := text :: m.printed })
  | .now, m => (m.clock, m)
  | .pause nanos, m => ((), { m with clock := m.clock + nanos })

end Machine

namespace Script

/-- Runs a script on a machine. -/
def runOn {τ : Type} (script : Script τ) (m : Machine) : τ × Machine := script.run Machine.reply m

end Script

end PlanReplay

import PlanReplay.Planner.Response
import PlanReplay.Text.Utf8

/-!
# Local solvers

A solver is a program that is run on the files of a domain and a problem. Its arguments hold placeholders for
the paths of the two files.
-/

namespace PlanReplay

open Text

/-- A program to run, and its arguments with placeholders. -/
structure Solver where
  program : String
  args : List String
deriving DecidableEq

/-- How the run of a program ends. -/
inductive ProcessOutcome where
  | notStarted (reason : String)
  /-- A program that a signal ends has no code. -/
  | ended (stdout stderr : List UInt8) (code : Option Int)

namespace Solver

def domainPlaceholder : String := "{domain}"

def problemPlaceholder : String := "{problem}"

/-- The solver in a Java archive. -/
def ofJar (jar : String) : Solver :=
  ⟨"java", ["-jar", jar, "-domain", domainPlaceholder, "-problem", problemPlaceholder]⟩

/-- The arguments for two files: the path of the domain is put in first, then that of the problem. -/
def argsFor (s : Solver) (domainPath problemPath : String) : List String :=
  s.args.map fun arg => replaceAll problemPlaceholder problemPath (replaceAll domainPlaceholder domainPath arg)

/-- The response of a solver whose run has ended. -/
def response (s : Solver) : ProcessOutcome → Except PlannerFailure PlannerResponse
  | .notStarted reason => .error (.unavailable ("failed to start '" ++ s.program ++ "': " ++ reason))
  | .ended stdout stderr code => .ok ⟨decodeLossy stdout, decodeLossy stderr, code.getD (-1)⟩

end Solver

end PlanReplay

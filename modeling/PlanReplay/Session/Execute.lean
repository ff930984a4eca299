import PlanReplay.CommandLine.Options
import PlanReplay.Config.Reader
import PlanReplay.Problem.Pddl
import PlanReplay.Problem.Reader
import PlanReplay.Session.Home
import PlanReplay.Session.HostLoop
import PlanReplay.Session.PlanSource

/-!
# Sessions

A session carries out one command. `Session.execute` is the script of a command; it prints what the command
prints, and ends with an error or without, unless the program ends before.
-/

namespace PlanReplay

open Decimal

/-- Why a command is not carried out. -/
inductive SessionError where
  | startup (error : StartupError)
  | unreadable (path : String) (error : FileError)
  | problem (error : ProblemError)
  | unreadableConfig (path : String) (error : FileError)
  | config (error : ConfigError)
  | selection (error : SelectionError)
  | artifact (error : ArtifactError)
  | planner (failure : PlannerFailure)
  | run (error : RunError)
  | output (error : FileError)

/-- A text that is no JSON is reported as just that; any other message says first what it is about. -/
def about (subject : String) (message : String) (isMalformed : Bool) : String :=
  if isMalformed then message else subject ++ message

def SessionError.message : SessionError → String
  | startup error => error.message
  | unreadable path error => "failed to read " ++ path ++ ": " ++ error.message
  | problem error =>
    about "problem file is invalid: " error.message
      (match error with
      | .unreadable .malformed => true
      | _ => false)
  | unreadableConfig path error =>
    "run config is invalid: failed to read config " ++ path ++ ": " ++ error.message
  | config error =>
    about "run config is invalid: " error.message
      (match error with
      | .unreadable .malformed => true
      | _ => false)
  | selection error => "cannot select domain: " ++ error.message
  | artifact error => error.message
  | planner failure => failure.message
  | run error => error.message
  | output error => "failed to write output: " ++ error.message

def SessionError.ofPlanSource : PlanSourceError → SessionError
  | .artifact error => artifact error
  | .planner failure => planner failure

/-- The number of seconds from which on a time is not to be counted. -/
def uncountableSeconds : Float := 18446744073709551616.0

namespace Session

/-- A script that may end with an error, or in the middle. -/
abbrev Attempt := ExceptT (Failure SessionError) Script

/-- Takes over the result of a script, and its error in other words. -/
def attempt {ε τ : Type} (error : ε → SessionError) (script : Script (Except ε τ)) : Attempt τ :=
  ExceptT.mk (script >>= fun outcome => return refusing (outcome.mapError error))

/-- Takes over a result, and its error in other words. -/
def attemptPure {ε τ : Type} (error : ε → SessionError) (outcome : Except ε τ) : Attempt τ :=
  ExceptT.mk (return refusing (outcome.mapError error))

def readText (path : String) : Attempt String := attempt (.unreadable path) (.request (.readFile path))

def print (text : String) : Attempt Unit := attempt .output (.request (.print text))

def loadProblem (path : String) : Attempt Problem := do
  attemptPure .problem (Problem.ofJson (← readText path))

def loadConfig (path : String) : Attempt (RunConfig Float) := do
  let text ← attempt (.unreadableConfig path) (.request (.readFile path))
  attemptPure .config (RunConfig.ofJson text)

/-- Prints a problem as PDDL. -/
def printPddl (path : String) (variant : DomainVariant) : Attempt Unit := do
  print ((← loadProblem path).pddl variant)

/-- Prints what a planner's response says. -/
def checkResponse (path : String) : Attempt Unit := do
  let response ← attemptPure .planner (PlannerResponse.ofJson (← readText path))
  match ← attemptPure .planner (response.classify RunConfig.default.defaultDuration) with
  | .plan plan => print ("plan: " ++ toString plan.actions.length ++ " actions\n" ++ plan.render)
  | .unsatisfiable => print "unsatisfiable\n"

/-- The domain and the variant of a run: the domain is the one that is asked for, or that of the problem. -/
def select (options : RunOptions) (problem : Problem) : Except SelectionError Selection :=
  match options.kind with
  | some kind => Selection.of kind options.variant
  | none =>
    match DomainKind.ofDomainName problem.domainName with
    | .ok kind => Selection.of kind options.variant
    | .error error => .error error

/-- The speed that is asked for, or else the one of the environment. -/
def speed? (env : Environment) (options : RunOptions) : Option Float :=
  options.speed.or (env.speed.bind CommandLine.environmentSpeed?)

/-- The configuration of a run. The program ends over an interval that is not to be counted. -/
def configure (env : Environment) (options : RunOptions) : Attempt (RunConfig Float) := do
  let config ←
    match options.config with
    | some path => loadConfig path
    | none => pure RunConfig.default
  if uncountableSeconds ≤ config.progressInterval then
    throw (.crashed (.uncountableInterval config.progressInterval))
  return { config with speed := (speed? env options).getD config.speed }

/-- The plan of a run: the one in a given file, or one that is obtained from the cache or a planner. -/
def loadPlan (options : RunOptions) (paths : RunPaths) (store : ArtifactStore) (selection : Selection)
    (fallback : Float) (pddl problemPath : String) : Attempt (Plan Float) := do
  match options.plan with
  | some path =>
    let text ← readText path
    let _ ← attempt .artifact (store.writePlan text)
    return .ofText fallback text
  | none =>
    let domainPath := options.domain.getD (paths.domainFile selection)
    let domain ← readText domainPath
    attempt .ofPlanSource (store.obtainPlan fallback options.useCache ⟨domain, pddl, domainPath, problemPath⟩)

/-- Leaves the problem where a planner finds it, and gets the plan of a run. -/
def planning (options : RunOptions) (paths : RunPaths) (store : ArtifactStore) (selection : Selection)
    (fallback : Float) (pddl : String) : Attempt (Plan Float) := do
  let problemPath ← attempt .artifact (store.writeProblem pddl)
  loadPlan options paths store selection fallback pddl problemPath

/-- The last line of a run. -/
def summary (t : Timeline Float) : String :=
  "summary: state=" ++ t.status.text ++ " virtual_time=" ++ fixedText 3 t.clock ++ " applied=" ++
    toString t.stats.applied ++ " rejected=" ++ toString t.stats.rejected ++ "\n"

/-- Runs a run to its end, and prints its events. -/
def finish (limit : Nat) (realtime : Bool) (run : Run) : Attempt Run :=
  ExceptT.mk (HostLoop.toEnd limit realtime run >>= fun outcome => return outcome.mapError (.map .output))

/-- Replays a plan for a problem, in at most `limit` frames. -/
def replay (limit : Nat) (env : Environment) (options : RunOptions) : Attempt Unit := do
  let paths ← attempt .startup (RunPaths.resolve env options.home)
  let problem ← loadProblem options.problem
  let selection ← attemptPure .selection (select options problem)
  let config ← configure env options
  let pddl := problem.pddl options.variant
  let plan ← planning options paths (paths.store env.writer) selection config.defaultDuration pddl
  let run ← attemptPure .run (Run.ofPlan config selection problem plan)
  let final ← finish limit options.realtime run
  print (summary final.timeline)

/-- Carries out a command; a replay takes at most `limit` frames. Help is no work for a session. -/
def execute (limit : Nat) (env : Environment) : Command → Script (Except (Failure SessionError) Unit)
  | .help => return .ok ()
  | .pddl path variant => (printPddl path variant).run
  | .checkResponse path => (checkResponse path).run
  | .run options => (replay limit env options).run

end Session

end PlanReplay

import PlanReplay.Decimal.Reader
import PlanReplay.Decimal.Shortest
import PlanReplay.Selection

/-!
# The command line

A command is chosen by the first argument; the others are flags, most of them with a value. The flags of a run
are read one after the other into settings, and the settings applied in their order, so that of two flags of
one name the last one counts.
-/

namespace PlanReplay

open Decimal Text

/-- The kinds of planners that a run can ask. -/
inductive PlannerBackend where
  | http
  | process
deriving DecidableEq

def PlannerBackend.name : PlannerBackend → String
  | .http => "http"
  | .process => "process"

def PlannerBackend.ofName? : String → Option PlannerBackend
  | "http" => some .http
  | "process" => some .process
  | _ => none

/-- Which planner is asked, and where it is. -/
structure PlannerSettings where
  backend : PlannerBackend
  url : String
  timeoutSeconds : Nat
  solverJar : String
deriving DecidableEq

/-- The planner that is asked by default. -/
def PlannerSettings.default : PlannerSettings := ⟨.http, "http://localhost:5000/plan", 180, "enhsp-20.jar"⟩

/-- The options of a run. -/
structure RunOptions where
  problem : String
  plan : Option String
  domain : Option String
  kind : Option DomainKind
  variant : DomainVariant
  config : Option String
  speed : Option Float
  realtime : Bool
  useCache : Bool
  home : Option String
  planner : PlannerSettings
deriving DecidableEq

/-- The options of a run for a problem where no other flag is given. -/
def RunOptions.ofProblem (problem : String) : RunOptions where
  problem := problem
  plan := none
  domain := none
  kind := none
  variant := .classical
  config := none
  speed := none
  realtime := false
  useCache := true
  home := none
  planner := .default

/-- What the program is asked to do. -/
inductive Command where
  | help
  /-- Print a problem as PDDL. -/
  | pddl (problem : String) (variant : DomainVariant)
  /-- Tell what a planner's response says. -/
  | checkResponse (path : String)
  | run (options : RunOptions)
deriving DecidableEq

/-- How the program is used. -/
def usage : String :=
  "\n".intercalate
    ["planvis - PDDL plan execution engine",
      "",
      "Usage:",
      "  planvis pddl --problem <problem.json> [--variant <v>]",
      "  planvis run --problem <problem.json> [--plan <plan.txt> | --domain <domain.pddl>]",
      "              [--kind <k>] [--variant <v>] [--config <run.json>] [--speed <x>]",
      "              [--realtime] [--no-cache] [--home <dir>]",
      "              [--planner http|process] [--planner-url <url>]",
      "              [--planner-timeout-secs <u64>] [--solver-jar <path>]",
      "  planvis check-response --response <response.json>",
      "",
      "Defaults:",
      "  --variant classical",
      "  --kind    problem domain name",
      "  --planner http (http://localhost:5000/plan, 180 s)",
      "  --home    $PLANVIS_HOME or ./.planvis"]

/-- What is wrong with a command line. -/
inductive UsageError where
  | noCommand
  | unknownCommand (name : String)
  | unknownArgument (command argument : String)
  | missingValue (flag : String)
  | invalidValue (flag value expected : String)
  | missingFlag (command flag : String)
  | planAndDomain
deriving DecidableEq

def UsageError.message : UsageError → String
  | .noCommand => usage
  | .unknownCommand name => "unknown subcommand '" ++ name ++ "'"
  | .unknownArgument command argument => "unknown " ++ command ++ " argument '" ++ argument ++ "'"
  | .missingValue flag => "missing value for " ++ flag
  | .invalidValue flag value expected =>
    "invalid " ++ flag ++ " value '" ++ value ++ "' (expected " ++ expected ++ ")"
  | .missingFlag command flag => command ++ " requires " ++ flag ++ " <file>"
  | .planAndDomain => "run accepts either --plan or --domain, not both"

namespace CommandLine

/-- The value of a flag, read as what is expected. -/
def readValue {τ : Type} (read : String → Option τ) (flag expected value : String) : Except UsageError τ :=
  match read value with
  | some x => .ok x
  | none => .error (.invalidValue flag value expected)

def readVariant (flag value : String) : Except UsageError DomainVariant :=
  readValue DomainVariant.ofName? flag "classical|numeric|temporal|event" value

/-- A speed from the command line: a finite number above zero. -/
def readSpeed (flag value : String) : Except UsageError Float :=
  match readFloat? value with
  | none => .error (.invalidValue flag value "positive number")
  | some speed =>
    if speed.isFinite ∧ 0 < speed then .ok speed
    else .error (.invalidValue flag (floatText speed) "positive number")

/-- A natural number of 64 bits in decimal digits, which may have a plus sign. -/
def readNat64? (value : String) : Option Nat :=
  let digits :=
    match value.toList with
    | '+' :: rest => rest
    | cs => cs
  if digits ≠ [] ∧ digits.all (·.isDigit) ∧ natOfDigits digits ≤ maxUInt64 then some (natOfDigits digits) else none

/-! ### The flags of a run -/

/-- What a flag of a run says. -/
inductive RunSetting where
  | problem (path : String)
  | plan (path : String)
  | domain (path : String)
  | kind (kind : DomainKind)
  | variant (variant : DomainVariant)
  | config (path : String)
  | speed (speed : Float)
  | home (path : String)
  | backend (backend : PlannerBackend)
  | url (url : String)
  | timeout (seconds : Nat)
  | solverJar (path : String)
  | realtime
  | noCache
deriving DecidableEq

/-- The setting of a flag without a value. -/
def bareSetting? : String → Option RunSetting
  | "--realtime" => some .realtime
  | "--no-cache" => some .noCache
  | _ => none

/-- The setting of a flag with a value; none if there is no such flag. -/
def valuedSetting? (flag : String) : Option (String → Except UsageError RunSetting) :=
  match flag with
  | "--problem" => some fun value => .ok (.problem value)
  | "--plan" => some fun value => .ok (.plan value)
  | "--domain" => some fun value => .ok (.domain value)
  | "--kind" => some fun value => (readValue DomainKind.ofName? flag "elevator|logistics|robot" value).map .kind
  | "--variant" => some fun value => (readVariant flag value).map .variant
  | "--config" => some fun value => .ok (.config value)
  | "--speed" => some fun value => (readSpeed flag value).map .speed
  | "--home" => some fun value => .ok (.home value)
  | "--planner" => some fun value => (readValue PlannerBackend.ofName? flag "http|process" value).map .backend
  | "--planner-url" => some fun value => .ok (.url value)
  | "--planner-timeout-secs" => some fun value => (readValue readNat64? flag "u64" value).map .timeout
  | "--solver-jar" => some fun value => .ok (.solverJar value)
  | _ => none

/-- The settings in the arguments of a run, in order. -/
def readSettings : List String → Except UsageError (List RunSetting)
  | [] => .ok []
  | flag :: rest =>
    match bareSetting? flag with
    | some setting => (readSettings rest).map (setting :: ·)
    | none =>
      match valuedSetting? flag, rest with
      | none, _ => .error (.unknownArgument "run" flag)
      | some _, [] => .error (.missingValue flag)
      | some read, value :: rest =>
        match read value with
        | .error error => .error error
        | .ok setting => (readSettings rest).map (setting :: ·)

/-- Options, and whether the problem was given. -/
structure PartialOptions where
  problem : Option String
  options : RunOptions
deriving DecidableEq

/-- Takes a setting into options. -/
def PartialOptions.apply (p : PartialOptions) (setting : RunSetting) : PartialOptions :=
  let o := p.options
  match setting with
  | .problem path => { p with problem := some path }
  | .plan path => { p with options := { o with plan := some path } }
  | .domain path => { p with options := { o with domain := some path } }
  | .kind kind => { p with options := { o with kind := some kind } }
  | .variant variant => { p with options := { o with variant := variant } }
  | .config path => { p with options := { o with config := some path } }
  | .speed speed => { p with options := { o with speed := some speed } }
  | .home path => { p with options := { o with home := some path } }
  | .backend backend => { p with options := { o with planner := { o.planner with backend := backend } } }
  | .url url => { p with options := { o with planner := { o.planner with url := url } } }
  | .timeout seconds => { p with options := { o with planner := { o.planner with timeoutSeconds := seconds } } }
  | .solverJar path => { p with options := { o with planner := { o.planner with solverJar := path } } }
  | .realtime => { p with options := { o with realtime := true } }
  | .noCache => { p with options := { o with useCache := false } }

/-- The options that settings make, taken in order. -/
def optionsOf (settings : List RunSetting) : Except UsageError RunOptions :=
  let final := settings.foldl PartialOptions.apply ⟨none, .ofProblem ""⟩
  match final.problem with
  | none => .error (.missingFlag "run" "--problem")
  | some problem =>
    if final.options.plan.isSome ∧ final.options.domain.isSome then .error .planAndDomain
    else .ok { final.options with problem := problem }

def parseRun (args : List String) : Except UsageError Command :=
  match readSettings args with
  | .error error => .error error
  | .ok settings => (optionsOf settings).map .run

/-! ### The other commands -/

/-- The problem and the variant in the arguments of `pddl`, after what was read before. -/
def readPddl (problem : Option String) (variant : DomainVariant) :
    List String → Except UsageError (Option String × DomainVariant)
  | [] => .ok (problem, variant)
  | ["--problem"] => .error (.missingValue "--problem")
  | ["--variant"] => .error (.missingValue "--variant")
  | "--problem" :: value :: rest => readPddl (some value) variant rest
  | "--variant" :: value :: rest =>
    match readVariant "--variant" value with
    | .error error => .error error
    | .ok variant => readPddl problem variant rest
  | flag :: _ => .error (.unknownArgument "pddl" flag)

def parsePddl (args : List String) : Except UsageError Command :=
  match readPddl none .classical args with
  | .error error => .error error
  | .ok (none, _) => .error (.missingFlag "pddl" "--problem")
  | .ok (some problem, variant) => .ok (.pddl problem variant)

def parseCheckResponse : List String → Except UsageError Command
  | ["--response", path] => .ok (.checkResponse path)
  | ["--response"] => .error (.missingValue "--response")
  | _ => .error (.missingFlag "check-response" "--response")

/-- The command in the arguments of the program. -/
def parse : List String → Except UsageError Command
  | [] => .error .noCommand
  | command :: rest =>
    match command with
    | "-h" | "--help" | "help" => .ok .help
    | "pddl" => parsePddl rest
    | "run" => parseRun rest
    | "check-response" => parseCheckResponse rest
    | other => .error (.unknownCommand other)

/-- A speed from the environment; blanks around it do not matter, and one that is unusable is none. -/
def environmentSpeed? (text : String) : Option Float :=
  (readFloat? (trim text)).filter fun speed => speed.isFinite && decide (0 < speed)

end CommandLine

end PlanReplay

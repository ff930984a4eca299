import PlanReplay.Json.Record
import PlanReplay.Plan.Normal

/-!
# Planner responses

What a planner has printed and the status it ended with, and what that says: a plan, that there is none, or
that the planner has failed.
-/

namespace PlanReplay

open Text JsonValue

/-- What a planner has printed, and the status it ended with. -/
structure PlannerResponse where
  stdout : String
  stderr : String
  returnCode : Int
deriving DecidableEq

/-- Why there is no answer from a planner. -/
inductive PlannerFailure where
  /-- The planner has failed; the detail is a line that it printed. -/
  | exited (returnCode : Int) (detail : String)
  | unreadable (fault : JsonFault)
  | unavailable (reason : String)
deriving DecidableEq

def PlannerFailure.message : PlannerFailure → String
  | .exited returnCode detail => "planner exited with status " ++ toString returnCode ++ ": " ++ detail
  | .unreadable .malformed => JsonFault.malformed.message "planner response"
  | .unreadable (.wrong path issue) =>
    let place := if path.isEmpty then "." else pathText path
    "parse planner response json at " ++ place ++ ": " ++ issue.message
  | .unavailable reason => "planner backend unavailable: " ++ reason

namespace PlannerResponse

/-- The fields of a response. Planning services have other names for two of them. -/
def shape : RecordShape PlannerResponse where
  name := "PlannerResponse"
  strict := false
  fields :=
    [.alsoNamed (.optional "stdout" readString fun x r => { r with stdout := x }) "resultText",
      .optional "stderr" readString fun x r => { r with stderr := x },
      .alsoNamed (.required "returncode" (readWhole minInt32 maxInt32 "i32") fun x r =>
        { r with returnCode := x }) "statusCode"]

/-- Reads a response from a JSON value. -/
def ofValue (value : JsonValue) : Except JsonFault PlannerResponse := shape.read ⟨"", "", 0⟩ value

/-- The response that a JSON text holds. -/
def ofJson (text : String) : Except PlannerFailure PlannerResponse :=
  match ofValue (JsonValue.parse text) with
  | .ok response => .ok response
  | .error fault => .error (.unreadable fault)

/-- Whether a planner says that there is no plan. -/
def mentionsUnsolvable (r : PlannerResponse) : Bool :=
  ["no solution", "unsolvable"].any fun marker => Text.contains marker (lower r.stdout)

end PlannerResponse

/-- What a planner's response says. -/
inductive PlannerOutcome where
  | plan (p : Plan Float)
  | unsatisfiable
deriving DecidableEq

/-- The plan to replay; where there is none, the one without actions. -/
def PlannerOutcome.toPlan : PlannerOutcome → Plan Float
  | .plan p => p
  | .unsatisfiable => .empty

namespace PlannerResponse

/-- What a response says. A planner that ends well and prints no action has shown that there is no plan. A
planner that ends badly may have printed a plan all the same, or that there is none. -/
def classify (fallback : Float) (r : PlannerResponse) : Except PlannerFailure PlannerOutcome :=
  let plan := Plan.ofText fallback r.stdout
  if r.returnCode = 0 then .ok (if plan.actions.isEmpty then .unsatisfiable else .plan plan)
  else if r.mentionsUnsolvable then .ok .unsatisfiable
  else if plan.actions.isEmpty then
    .error (.exited r.returnCode (((firstFilledLine r.stderr).or (firstFilledLine r.stdout)).getD "no output"))
  else .ok (.plan plan)

end PlannerResponse

end PlanReplay

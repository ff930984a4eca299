import PlanReplay.Planner.Response

/-!
# Planning services

A planning service answers over HTTP with a response as JSON. `serviceReply` reads its answer.
-/

namespace PlanReplay

open Text

/-- The response in a service's answer. An answer that is no success is a failure: with the first line of the
planner's errors if it holds a response, else with the status, as `statusText` writes it. -/
def serviceReply (statusText : Nat → String) (status : Nat) (body : String) :
    Except PlannerFailure PlannerResponse :=
  if 200 ≤ status ∧ status < 300 then PlannerResponse.ofJson body
  else
    let refusal := "planning service returned HTTP " ++ statusText status
    match PlannerResponse.ofJson body with
    | .ok reply => .error (.exited reply.returnCode ((firstFilledLine reply.stderr).getD refusal))
    | .error _ => .error (.unavailable refusal)

end PlanReplay

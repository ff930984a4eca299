import PlanReplay.Plan.Normal
import PlanReplay.Problem.Basic
import PlanReplay.Replay.Timeline
import PlanReplay.Selection
import PlanReplay.World.Initial

/-!
# Runs

A run replays the plan of a planner against a problem: the problem is validated, its initial world built
and completed for the domain, and the timeline of the plan started.
-/

namespace PlanReplay

/-- Why a run cannot begin. -/
inductive RunError where
  | problem (path : String) (fault : EntryFault)
  | world (error : WorldInitError)
  | prepare (domain : DomainKind) (violation : Violation Float)

def RunError.message : RunError → String
  | .problem path fault => "problem is invalid: " ++ invalidEntryMessage path fault
  | .world error => "cannot build world: " ++ error.message
  | .prepare domain violation =>
    "cannot prepare " ++ domain.name ++ " domain state: " ++ violation.message

/-- A timeline that has been started, and what happened at its start and has not been told yet. -/
structure Run where
  timeline : Timeline Float
  untold : List (ReplayEvent Float)

namespace Run

/-- The timeline of a plan for a problem, not started yet. -/
def timelineOf (config : RunConfig Float) (selection : Selection) (problem : Problem) (plan : Plan Float) :
    Except RunError (Timeline Float) :=
  match World.ofProblem problem with
  | .error error => .error (.world error)
  | .ok world =>
    match (ActionTable.ofConfig config selection.kind selection.variant).prepare world with
    | .error violation => .error (.prepare selection.kind violation)
    | .ok (table, world) => .ok (.ofPlan config.speed table world plan)

/-- The run of a plan for a problem. A plan without actions makes a run that has ended. -/
def ofPlan (config : RunConfig Float) (selection : Selection) (problem : Problem) (plan : Plan Float) :
    Except RunError Run :=
  match problem.fault? with
  | some (path, fault) => .error (.problem path fault)
  | none =>
    match timelineOf config selection problem plan with
    | .error error => .error error
    | .ok timeline =>
      let (started, events) := timeline.start
      .ok ⟨started, events⟩

/-- The run of a planner's text for a problem. -/
def ofText (config : RunConfig Float) (selection : Selection) (problem : Problem) (text : String) :
    Except RunError Run :=
  ofPlan config selection problem (.ofText config.defaultDuration text)

/-- Hands seconds of the host to a run. When the program ends, nothing is told any more, and no run is left. -/
def step (r : Run) (seconds : Float) : Except Crash (Run × List (ReplayEvent Float)) :=
  let (timeline, events) := r.timeline.step seconds
  match timeline.status with
  | .crashed crash => .error crash
  | _ => .ok (⟨timeline, []⟩, r.untold ++ events)

/-- Ends a run early. -/
def cancel (r : Run) : Run × List (ReplayEvent Float) :=
  let (timeline, events) := r.timeline.cancel
  (⟨timeline, []⟩, r.untold ++ events)

/-- Whether nothing more happens, and everything that happened has been told. -/
def isComplete (r : Run) : Bool := r.untold.isEmpty && r.timeline.isComplete

end Run

end PlanReplay

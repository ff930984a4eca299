import PlanReplay.Artifacts.Store

/-!
# Obtaining a plan

A session that is given no plan takes one from the cache, or asks a planner. Only responses that say something
are kept in the cache.
-/

namespace PlanReplay

/-- Why no plan is obtained. -/
inductive PlanSourceError where
  | artifact (error : ArtifactError)
  | planner (failure : PlannerFailure)
deriving DecidableEq

namespace ArtifactStore

/-- The cached response to a domain and a problem, if the cache is used and has one. -/
def lookUp (s : ArtifactStore) (useCache : Bool) (key : String) :
    Script (Except ArtifactError (Option PlannerResponse)) := do
  if useCache then
    match ← s.cachedResponse key with
    | .error error => return .error error
    | .ok (.present response) => return .ok (some response)
    | .ok _ => return .ok none
  else
    return .ok none

/-- The response to a call, from the cache or the planner, and whether it is from the cache. -/
def respond (s : ArtifactStore) (useCache : Bool) (key : String) (call : PlannerCall) :
    Script (Except PlanSourceError (PlannerResponse × Bool)) := do
  match ← s.lookUp useCache key with
  | .error error => return .error (.artifact error)
  | .ok (some response) => return .ok (response, true)
  | .ok none =>
    match ← .request (.askPlanner call) with
    | .error failure => return .error (.planner failure)
    | .ok response => return .ok (response, false)

/-- The plan for a call. The text of the plan is written as it is, also if it says nothing. -/
def obtainPlan (s : ArtifactStore) (fallback : Float) (useCache : Bool) (call : PlannerCall) :
    Script (Except PlanSourceError (Plan Float)) := do
  let key := cacheKey call.domain call.problem
  match ← s.respond useCache key call with
  | .error error => return .error error
  | .ok (response, cached) =>
    match ← s.writePlan response.stdout with
    | .error error => return .error (.artifact error)
    | .ok _ =>
      match response.classify fallback with
      | .error failure => return .error (.planner failure)
      | .ok outcome =>
        if useCache && !cached then
          match ← s.storeResponse key response with
          | .error error => return .error (.artifact error)
          | .ok _ => return .ok outcome.toPlan
        else
          return .ok outcome.toPlan

end ArtifactStore

end PlanReplay

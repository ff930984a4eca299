import PlanReplay.Domain.Elevator
import PlanReplay.Domain.Logistics
import PlanReplay.Domain.Robot

/-!
# The action table of a run

A run uses the actions of one domain. The table decodes the actions of a plan, dispatches them against the
world, and is told when their transitions are finished.
-/

namespace PlanReplay

variable {α : Type}

/-- An action of a plan as an action of a domain. A wait belongs to every domain. -/
inductive DomainAction where
  | elevator (action : Elevator.Action)
  | logistics (action : Logistics.Action)
  | robot (action : Robot.Action)
  | wait
deriving DecidableEq

/-- The actions of the domain of a run. -/
inductive ActionTable (α : Type) where
  | elevator (table : Elevator.Table α)
  | logistics (table : Logistics.Table α)
  | robot (table : Robot.Table α)
deriving DecidableEq

namespace ActionTable

/-- The table before a run of a domain. -/
def ofConfig (config : RunConfig α) (kind : DomainKind) (variant : DomainVariant) : ActionTable α :=
  match kind with
  | .elevator => .elevator (.ofConfig config)
  | .logistics => .logistics (.ofConfig config variant)
  | .robot => .robot (.ofConfig config)

/-- The domain of a table. -/
def domain : ActionTable α → DomainKind
  | .elevator _ => .elevator
  | .logistics _ => .logistics
  | .robot _ => .robot

/-- The action of the domain that an action of a plan stands for. -/
def decode (t : ActionTable α) (a : TimedAction α) : Except DecodeError DomainAction :=
  if a.isWait then .ok .wait
  else
    match t with
    | elevator _ => (Elevator.Action.decode a).map .elevator
    | logistics _ => (Logistics.Action.decode a).map .logistics
    | robot _ => (Robot.Action.decode a).map .robot

/-- The table after the transition of an action is finished. -/
def finish (t : ActionTable α) (action : DomainAction) : ActionTable α × List PhaseChange :=
  match t, action with
  | robot table, .robot action =>
    match table.finish action with
    | (table, changes) => (robot table, changes)
  | t, _ => (t, [])

/-- The table after everything in flight has reached the state it is committed to. -/
def settle (t : ActionTable α) : ActionTable α × List PhaseChange :=
  match t with
  | robot table =>
    match table.settle with
    | (table, changes) => (robot table, changes)
  | t => (t, [])

/-- The phase of a robot, in the domain that has robots. -/
def phase? (t : ActionTable α) (id : EntityId) : Option RobotPhase :=
  match t with
  | robot table => some (table.phase id)
  | _ => none

/-- The order of the floors, in the domain that has floors. -/
def floorOrder? (t : ActionTable α) : Option (List EntityId) :=
  match t with
  | elevator table => some table.floorOrder
  | _ => none

variable [Scalar α]

/-- Notes what a table has to know about a world, and completes the world with the levels that the domain
needs. -/
def prepare (t : ActionTable α) (w : World α) : Except (Violation α) (ActionTable α × World α) :=
  let (table, effects) : ActionTable α × List (Effect α) :=
    match t with
    | elevator table =>
      match table.prepare w with
      | (table, effects) => (elevator table, effects)
    | logistics table => (logistics table, table.prepare w)
    | robot table =>
      match table.prepare w with
      | (table, effects) => (robot table, effects)
  match w.applyEffects effects with
  | .ok next => .ok (table, next)
  | .error violation => .error violation

/-- The table and the world after an accepted action, with what it reports; or why there are none. -/
def dispatch (t : ActionTable α) (action : DomainAction) (a : TimedAction α) (w : World α) (clock : α) :
    Except (Failure (Rejection α)) (ActionTable α × World α × Applied α) :=
  match t, action with
  | t, .wait => .ok (t, w, ⟨⟨a.name, none, .wait, .nowhere, .nowhere, .elapsed a.duration⟩, []⟩)
  | elevator table, .elevator action =>
    match w.attempt action.referenced (table.effects w action) with
    | .ok next => .ok (elevator table, next, ⟨table.transition w a action, []⟩)
    | .error failure => .error failure
  | logistics table, .logistics action =>
    match w.attempt action.referenced (refusing (table.effects w action)) with
    | .ok next => .ok (logistics table, next, ⟨table.transition w a action, []⟩)
    | .error failure => .error failure
  | robot table, .robot action =>
    match w.attempt action.referenced (refusing (table.effects w clock action)) with
    | .ok next =>
      match table.commit next clock action with
      | (after, changes) => .ok (robot after, next, ⟨table.transition w a clock action, changes⟩)
    | .error failure => .error failure
  | t, .elevator _ => .error (.refused (.undecoded (.wrongDomain a.name .elevator t.domain)))
  | t, .logistics _ => .error (.refused (.undecoded (.wrongDomain a.name .logistics t.domain)))
  | t, .robot _ => .error (.refused (.undecoded (.wrongDomain a.name .robot t.domain)))

end ActionTable

end PlanReplay

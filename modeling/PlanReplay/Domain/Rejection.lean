import PlanReplay.Crash
import PlanReplay.Domain.Transition
import PlanReplay.World.Basic

/-!
# Accepted and rejected actions

An action of a plan is decoded into an action of the domain, and then attempted: the entities it names
must exist, its preconditions must hold, and the world must accept its effects. `World.attempt` is that
sequence, the same for every domain. A rejected action leaves no trace; one over which the program ends is not
rejected, and has no outcome.
-/

namespace PlanReplay

variable {α : Type}

/-- Why an action of a plan is no action of the domain. -/
inductive DecodeError where
  | unknownVerb (domain : DomainKind) (verb : String)
  | arity (verb : String) (expected : String) (actual : Nat)
  | wrongDomain (verb : String) (decoded active : DomainKind)
deriving DecidableEq

def DecodeError.message : DecodeError → String
  | .unknownVerb domain verb => "unknown " ++ domain.name ++ " action '" ++ verb ++ "'"
  | .arity verb expected actual =>
    "'" ++ verb ++ "' expects " ++ expected ++ " arguments, got " ++ toString actual
  | .wrongDomain verb decoded active =>
    "'" ++ verb ++ "' was decoded for the " ++ decoded.name ++ " domain but the run uses " ++ active.name

/-- Why an action is not carried out. -/
inductive Rejection (α : Type) where
  | unknownEntity (entity : EntityId)
  | violated (violation : Violation α)
  | undecoded (error : DecodeError)
deriving DecidableEq

namespace Rejection

def message : Rejection Float → String
  | unknownEntity entity => "unknown entity '" ++ entity.text ++ "'"
  | violated violation => "constraint violated: " ++ violation.message
  | undecoded error => "cannot decode action: " ++ error.message

/-- The rejection for a violation; an unknown entity is one of its own. -/
def ofViolation : Violation α → Rejection α
  | .unknownEntity entity => .unknownEntity entity
  | violation => .violated violation

end Rejection

/-- A robot goes from one phase to another. -/
structure PhaseChange where
  robot : EntityId
  before : RobotPhase
  after : RobotPhase
deriving DecidableEq

/-- What an accepted action reports. -/
structure Applied (α : Type) where
  transition : Transition α
  phaseChanges : List PhaseChange
deriving DecidableEq

/-- Attempts an action that names the entities `referenced`, and whose preconditions yield `effects`: the
first undeclared entity, the failed precondition or the refusal of the world rejects it, unless the program ends
over its preconditions. -/
def World.attempt [Scalar α] (w : World α) (referenced : List EntityId)
    (effects : Except (Failure (Violation α)) (List (Effect α))) : Except (Failure (Rejection α)) (World α) :=
  match referenced.find? fun id => !w.contains id with
  | some missing => .error (.refused (.unknownEntity missing))
  | none =>
    match effects with
    | .error (.crashed crash) => .error (.crashed crash)
    | .error (.refused violation) => .error (.refused (.ofViolation violation))
    | .ok effects =>
      match w.applyEffects effects with
      | .error violation => .error (.refused (.ofViolation violation))
      | .ok next => .ok next

namespace TimedAction

/-- The error of an action with the wrong number of arguments. -/
def arityError (a : TimedAction α) (expected : String) : DecodeError := .arity a.name expected a.args.length

/-- The declared duration of an action, or `fallback` where it declares none. -/
def durationOr [Scalar α] (a : TimedAction α) (fallback : α) : α := if 0 < a.duration then a.duration else fallback

end TimedAction

end PlanReplay

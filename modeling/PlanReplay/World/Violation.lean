import PlanReplay.Decimal.Shortest
import PlanReplay.Domain.Vocabulary
import PlanReplay.Text.Quoted
import PlanReplay.World.Vocabulary

/-!
# Why a change of the world is refused

`Precondition` names what an action of a domain asks for and does not find; `Violation` adds what the world
itself refuses. The wording of both is in their `message` functions.
-/

namespace PlanReplay

/-- Something an action asks for and does not find. -/
inductive Precondition where
  /-- An entity is not where the action says. -/
  | elsewhere (entity actual claimed : EntityId)
  /-- A move goes against the order of the floors. -/
  | notAbove (upper lower : EntityId)
  /-- Neither a relation nor a floor index tells the floor of an elevator. -/
  | unknownFloor (elevator : EntityId)
  /-- A move by one floor leaves the building. -/
  | noFloorBeyond (elevator : EntityId) (direction : Direction) (index : Int)
  | notWaiting (person : EntityId)
  /-- A person waits on another floor than that of the elevator. -/
  | floorsDiffer (elevator elevatorFloor person personFloor : EntityId)
  /-- A drive would leave the city. -/
  | cityBorder (vehicle start startCity goal goalCity : EntityId)
  | cannotStart (robot : EntityId) (activity : RobotActivity) (phase : RobotPhase)
  | notCharging (robot : EntityId) (phase : RobotPhase)
deriving DecidableEq

def Precondition.message : Precondition → String
  | .elsewhere entity actual claimed =>
    entity.text ++ " is at " ++ actual.text ++ ", not " ++ claimed.text
  | .notAbove upper lower => upper.text ++ " is not above " ++ lower.text
  | .unknownFloor elevator => "cannot tell which floor " ++ elevator.text ++ " is on"
  | .noFloorBeyond elevator direction index =>
    elevator.text ++ " cannot move " ++ direction.name ++ " from floor index " ++ toString index
  | .notWaiting person => person.text ++ " is not waiting at any floor"
  | .floorsDiffer elevator elevatorFloor person personFloor =>
    elevator.text ++ " is at " ++ elevatorFloor.text ++ " but " ++ person.text ++ " waits at " ++
      personFloor.text
  | .cityBorder vehicle start startCity goal goalCity =>
    vehicle.text ++ " cannot drive from " ++ start.text ++ " in " ++ startCity.text ++ " to " ++ goal.text ++
      " in " ++ goalCity.text
  | .cannotStart robot activity phase =>
    robot.text ++ " cannot start " ++ activity.name ++ " while " ++ phase.name
  | .notCharging robot phase => robot.text ++ " is not charging (" ++ phase.name ++ ")"

/-- Why a change of the world is refused. -/
inductive Violation (α : Type) where
  | unknownEntity (entity : EntityId)
  | missingRelation (relation : Relation)
  | missingFact (fact : Fact)
  | multiplePlacements (entity : EntityId) (count : Nat)
  | functionalRelation (entity : EntityId) (kind : RelationKind) (count : Nat)
  | resourceExceeded (entity : EntityId) (key : ResourceKey) (value : α) (limitKey : ResourceKey) (limit : α)
  | negativeResource (entity : EntityId) (key : ResourceKey) (value : α)
  | insufficientResource (entity : EntityId) (key : ResourceKey) (required available : α)
  | missingResource (entity : EntityId) (key : ResourceKey)
  | nonFinite (key : ResourceKey) (args : List EntityId)
  | precondition (cause : Precondition)
deriving DecidableEq

open Decimal Text

def Violation.message : Violation Float → String
  | .unknownEntity entity => "unknown entity '" ++ entity.text ++ "'"
  | .missingRelation relation => "relation " ++ relation.text ++ " does not hold"
  | .missingFact fact => "fact " ++ fact.text ++ " does not hold"
  | .multiplePlacements entity count =>
    entity.text ++ " would be placed " ++ toString count ++ " times at once"
  | .functionalRelation entity kind count =>
    entity.text ++ " would have " ++ toString count ++ " '" ++ kind.name ++
      "' objects (expected at most one)"
  | .resourceExceeded entity key value limitKey limit =>
    key.name ++ " of " ++ entity.text ++ " would be " ++ floatText value ++ ", above " ++ limitKey.name ++
      " " ++ floatText limit
  | .negativeResource entity key value =>
    key.name ++ " of " ++ entity.text ++ " would be negative (" ++ floatText value ++ ")"
  | .insufficientResource entity key required available =>
    entity.text ++ " needs " ++ key.name ++ " " ++ floatText required ++ ", has " ++ floatText available
  | .missingResource entity key => key.name ++ " of " ++ entity.text ++ " is not set"
  | .nonFinite key args =>
    key.name ++ " " ++ bracketed (args.map fun id => "EntityId(" ++ quoted id.text ++ ")") ++
      " would not be a finite number"
  | .precondition cause => cause.message

end PlanReplay

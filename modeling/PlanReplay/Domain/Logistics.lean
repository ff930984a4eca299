import PlanReplay.Config.Basic
import PlanReplay.Domain.Rejection
import PlanReplay.Selection

/-!
# The logistics domain

Packages are loaded into vehicles that drive or fly between places. Vehicles with a fuel level burn fuel;
a drive stays inside one city unless it is a drive between cities.
-/

namespace PlanReplay

variable {α : Type}

namespace Logistics

/-- The ways to travel. -/
inductive Mode where
  | drive
  | fly
deriving DecidableEq

/-- The actions of the logistics domain. A travel may name one more entity, such as the city of a drive;
it must exist and has no other meaning. -/
inductive Action where
  | load (package vehicle location : EntityId)
  | unload (package vehicle location : EntityId)
  | travel (mode : Mode) (vehicle start goal : EntityId) (extra : Option EntityId) (crossesCities : Bool)
  | refuel (vehicle : EntityId) (location : Option EntityId)
deriving DecidableEq

/-- What a run of the logistics domain knows besides the world. -/
structure Table (α : Type) where
  params : LogisticsParams α
  variant : DomainVariant
  defaultDuration : α
deriving DecidableEq

namespace Action

/-- The entities that must exist for an action. -/
def referenced : Action → List EntityId
  | .load package vehicle location | .unload package vehicle location => [package, vehicle, location]
  | .travel _ vehicle start goal extra _ => vehicle :: start :: goal :: extra.toList
  | .refuel vehicle location => vehicle :: location.toList

/-- A travel with the given arguments. -/
def decodeTravel (mode : Mode) (crossesCities : Bool) (a : TimedAction α) : Except DecodeError Action :=
  match a.args with
  | [vehicle, start, goal] => .ok (.travel mode vehicle start goal none crossesCities)
  | [vehicle, start, goal, extra] => .ok (.travel mode vehicle start goal (some extra) crossesCities)
  | _ => .error (a.arityError "3 or 4")

/-- The action of the domain that an action of a plan stands for. -/
def decode (a : TimedAction α) : Except DecodeError Action :=
  match a.name with
  | "load-truck" | "load-airplane" =>
    match a.args with
    | [package, vehicle, location] => .ok (.load package vehicle location)
    | _ => .error (a.arityError "3")
  | "unload-truck" | "unload-airplane" =>
    match a.args with
    | [package, vehicle, location] => .ok (.unload package vehicle location)
    | _ => .error (a.arityError "3")
  | "drive" | "drive-truck" | "start-drive" => decodeTravel .drive false a
  | "drive-between-cities" => decodeTravel .drive true a
  | "fly" | "fly-airplane" | "start-fly" => decodeTravel .fly false a
  | "refuel" | "refuel-truck" | "refuel-airplane" =>
    match a.args with
    | [vehicle] => .ok (.refuel vehicle none)
    | [vehicle, location] => .ok (.refuel vehicle (some location))
    | _ => .error (a.arityError "1 or 2")
  | verb => .error (.unknownVerb .logistics verb)

end Action

/-- The name of the facts that tell the city of a place. -/
def inCity : String := "in-city"

/-- The city of a place, from the first fact that tells it. -/
def cityOf? (w : World α) (place : EntityId) : Option EntityId :=
  w.facts.findSome? fun fact =>
    match fact.args with
    | [subject, city] => if fact.name = inCity ∧ subject = place then some city else none
    | _ => none

namespace Table

/-- The table before a run. -/
def ofConfig (config : RunConfig α) (variant : DomainVariant) : Table α :=
  ⟨config.logistics, variant, config.defaultDuration⟩

/-- The fuel given to vehicles without a level: the configured one or, in the event variant, a full
tank. -/
def seed? (t : Table α) : Option α :=
  match t.params.initialFuel, t.variant with
  | some level, _ => some level
  | none, .event => some t.params.fuelCapacity
  | none, _ => none

/-- The effects that complete a world. -/
def prepare (t : Table α) (w : World α) : List (Effect α) :=
  match t.seed? with
  | some seed =>
    (w.entities.toList.filter fun (id, kind) => kind.isVehicle && (w.level? id .fuel).isNone).map
      fun (id, _) => .setLevel id .fuel seed
  | none => []

/-- The fuel that a travel costs. -/
def fuelCost (t : Table α) : Mode → α
  | .drive => t.params.driveFuelCost
  | .fly => t.params.flyFuelCost

variable [Scalar α]

/-- The two different cities between which a drive is not allowed. -/
def cityBorder? (w : World α) (mode : Mode) (start goal : EntityId) (crossesCities : Bool) :
    Option (EntityId × EntityId) :=
  if mode = .drive ∧ crossesCities = false then
    match cityOf? w start, cityOf? w goal with
    | some startCity, some goalCity => if startCity = goalCity then none else some (startCity, goalCity)
    | _, _ => none
  else
    none

/-- The effects of a travel. -/
def travel (t : Table α) (w : World α) (mode : Mode) (vehicle start goal : EntityId) (crossesCities : Bool) :
    Except (Violation α) (List (Effect α)) :=
  if w.holds ⟨.isAt, vehicle, start⟩ then
    match cityBorder? w mode start goal crossesCities with
    | some (startCity, goalCity) =>
      .error (.precondition (.cityBorder vehicle start startCity goal goalCity))
    | none =>
      match w.level? vehicle .fuel with
      | none => .ok [.relate ⟨.isAt, vehicle, goal⟩]
      | some fuel =>
        if fuel < t.fuelCost mode then .error (.insufficientResource vehicle .fuel (t.fuelCost mode) fuel)
        else .ok [.relate ⟨.isAt, vehicle, goal⟩, .adjust vehicle .fuel (-t.fuelCost mode)]
  else
    .error (.missingRelation ⟨.isAt, vehicle, start⟩)

/-- The effects of loading a package, which must be where the vehicle is. -/
def load (w : World α) (package vehicle location : EntityId) : Except (Violation α) (List (Effect α)) :=
  if w.holds ⟨.isAt, package, location⟩ then
    if w.holds ⟨.isAt, vehicle, location⟩ then
      .ok [.unrelate ⟨.isAt, package, location⟩, .relate ⟨.isIn, package, vehicle⟩]
    else
      .error (.missingRelation ⟨.isAt, vehicle, location⟩)
  else
    .error (.missingRelation ⟨.isAt, package, location⟩)

/-- The effects of unloading a package where its vehicle is. -/
def unload (w : World α) (package vehicle location : EntityId) : Except (Violation α) (List (Effect α)) :=
  if w.holds ⟨.isIn, package, vehicle⟩ then
    if w.holds ⟨.isAt, vehicle, location⟩ then
      .ok [.unrelate ⟨.isIn, package, vehicle⟩, .relate ⟨.isAt, package, location⟩]
    else
      .error (.missingRelation ⟨.isAt, vehicle, location⟩)
  else
    .error (.missingRelation ⟨.isIn, package, vehicle⟩)

/-- The effects of filling a tank, at the named place if there is one. -/
def refuel (t : Table α) (w : World α) (vehicle : EntityId) (location : Option EntityId) :
    Except (Violation α) (List (Effect α)) :=
  match location.filter fun location => !w.holds ⟨.isAt, vehicle, location⟩ with
  | some location => .error (.missingRelation ⟨.isAt, vehicle, location⟩)
  | none => .ok [.setLevel vehicle .fuel t.params.fuelCapacity]

/-- The effects of an action, or the precondition that fails. -/
def effects (t : Table α) (w : World α) : Action → Except (Violation α) (List (Effect α))
  | .load package vehicle location => load w package vehicle location
  | .unload package vehicle location => unload w package vehicle location
  | .travel mode vehicle start goal _ crossesCities => t.travel w mode vehicle start goal crossesCities
  | .refuel vehicle location => t.refuel w vehicle location

/-- What an action looks like, seen from the world before it. -/
def transition (t : Table α) (w : World α) (a : TimedAction α) : Action → Transition α
  | .load package vehicle _ =>
    ⟨a.name, some package, .attach, ((w.related? .isAt package).map .entity).getD .nowhere, .entity vehicle,
      .elapsed (a.durationOr t.defaultDuration)⟩
  | .unload package vehicle location =>
    ⟨a.name, some package, .detach, .entity vehicle, .entity location,
      .elapsed (a.durationOr t.defaultDuration)⟩
  | .travel _ vehicle start goal _ _ =>
    ⟨a.name, some vehicle, .move, .entity start, .entity goal, .elapsed (a.durationOr t.defaultDuration)⟩
  | .refuel vehicle _ =>
    ⟨a.name, some vehicle, .consumeResource, .level ((w.level? vehicle .fuel).getD 0),
      .level t.params.fuelCapacity, .elapsed a.duration⟩

end Table

end Logistics

end PlanReplay

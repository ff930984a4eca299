import PlanReplay.Decimal.Shortest
import PlanReplay.Scalar

/-!
# Configuration of a run

The numbers that a run takes from outside: how fast time passes, and how the machines of each domain
behave. `RunConfig.validate` accepts a configuration whose numbers the simulation can work with.
-/

namespace PlanReplay

/-- An elevator car covers `distancePerFloor` for each floor at `baseSpeed`, slowed down by up to the
fraction `loadSlowdown` under full load. -/
structure ElevatorParams (α : Type) where
  distancePerFloor : α
  baseSpeed : α
  loadSlowdown : α
deriving DecidableEq

/-- The fuel of vehicles; `initialFuel` is given to vehicles that a problem leaves without a level. -/
structure LogisticsParams (α : Type) where
  driveFuelCost : α
  flyFuelCost : α
  fuelCapacity : α
  initialFuel : Option α
deriving DecidableEq

/-- The routes and the battery of robots. A robot that moves loses `drainRate` of its battery for each
unit of time and stops at the `depletionThreshold`; one that charges gets the fraction `chargeRate` of what
is missing for each unit of time. -/
structure RobotParams (α : Type) where
  routeLength : α
  moveSpeed : α
  drainRate : α
  depletionThreshold : α
  chargeRate : α
  batteryCapacity : α
deriving DecidableEq

/-- The configuration of a run. -/
structure RunConfig (α : Type) where
  /-- Units of virtual time for each second of the host. -/
  speed : α
  /-- The duration of actions that declare none. -/
  defaultDuration : α
  /-- Seconds between two reports of progress. -/
  progressInterval : α
  elevator : ElevatorParams α
  logistics : LogisticsParams α
  robot : RobotParams α
deriving DecidableEq

/-- The configuration that is used where none is given. -/
def RunConfig.default : RunConfig Float where
  speed := 1
  defaultDuration := 1
  progressInterval := 1
  elevator := ⟨100, 50, 0.5⟩
  logistics := ⟨10, 20, 100, none⟩
  robot := ⟨5, 1, 2, 10, 0.2, 100⟩

/-- What a number of a configuration has to be. -/
inductive Requirement (α : Type) where
  | positive
  | nonNegative
  /-- At least zero and below one. -/
  | fraction
  /-- At most the fuel capacity. -/
  | withinTank (capacity : α)
  /-- Below the battery capacity. -/
  | belowBattery (capacity : α)
deriving DecidableEq

namespace Requirement

variable {α : Type} [Scalar α]

/-- Whether a number is what is required. -/
def holds (requirement : Requirement α) (value : α) : Bool :=
  match requirement with
  | positive => Scalar.isFinite value && decide (0 < value)
  | nonNegative => Scalar.isFinite value && decide (0 ≤ value)
  | fraction => Scalar.isFinite value && (decide (0 ≤ value) && decide (value < 1))
  | withinTank capacity => !decide (capacity < value)
  | belowBattery capacity => !decide (capacity ≤ value)

def text : Requirement Float → String
  | positive => "positive finite number"
  | nonNegative => "non-negative finite number"
  | fraction => "number in [0, 1)"
  | withinTank capacity => "at most fuel_capacity " ++ Decimal.floatText capacity
  | belowBattery capacity => "below battery_capacity " ++ Decimal.floatText capacity

end Requirement

/-- A number of a configuration that is not what it has to be. -/
structure ConfigFault (α : Type) where
  path : String
  requirement : Requirement α
  value : α
deriving DecidableEq

def ConfigFault.message (fault : ConfigFault Float) : String :=
  "validation failed at " ++ fault.path ++ ": expected " ++ fault.requirement.text ++ ", got " ++
    Decimal.floatText fault.value

namespace RunConfig

variable {α : Type}

/-- The requirements on a configuration, in the order in which they are looked at. -/
def requirements (c : RunConfig α) : List (ConfigFault α) :=
  [⟨"speed_multiplier", .positive, c.speed⟩,
    ⟨"default_action_duration", .nonNegative, c.defaultDuration⟩,
    ⟨"progress_log_interval_secs", .positive, c.progressInterval⟩,
    ⟨"elevator.distance_per_floor", .positive, c.elevator.distancePerFloor⟩,
    ⟨"elevator.base_speed", .positive, c.elevator.baseSpeed⟩,
    ⟨"elevator.load_slowdown", .fraction, c.elevator.loadSlowdown⟩,
    ⟨"logistics.drive_fuel_cost", .nonNegative, c.logistics.driveFuelCost⟩,
    ⟨"logistics.fly_fuel_cost", .nonNegative, c.logistics.flyFuelCost⟩,
    ⟨"logistics.fuel_capacity", .positive, c.logistics.fuelCapacity⟩]
    ++ (match c.logistics.initialFuel with
      | some initial =>
        [⟨"logistics.initial_fuel", .nonNegative, initial⟩,
          ⟨"logistics.initial_fuel", .withinTank c.logistics.fuelCapacity, initial⟩]
      | none => [])
    ++ [⟨"robot.route_length", .positive, c.robot.routeLength⟩,
      ⟨"robot.move_speed", .positive, c.robot.moveSpeed⟩,
      ⟨"robot.battery_drain_rate", .nonNegative, c.robot.drainRate⟩,
      ⟨"robot.charge_rate", .positive, c.robot.chargeRate⟩,
      ⟨"robot.battery_capacity", .positive, c.robot.batteryCapacity⟩,
      ⟨"robot.depletion_threshold", .nonNegative, c.robot.depletionThreshold⟩,
      ⟨"robot.depletion_threshold", .belowBattery c.robot.batteryCapacity, c.robot.depletionThreshold⟩]

/-- The first number of a configuration that is not what it has to be. -/
def fault? [Scalar α] (c : RunConfig α) : Option (ConfigFault α) :=
  c.requirements.find? fun fault => !fault.requirement.holds fault.value

/-- Whether every number of a configuration is what it has to be. -/
def IsValid [Scalar α] (c : RunConfig α) : Prop := c.fault? = none

end RunConfig

end PlanReplay

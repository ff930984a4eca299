import PlanReplay.Config.Basic
import PlanReplay.Json.Record

/-!
# Reading a configuration

A configuration is a JSON object; what it leaves out has its default. `RunConfig.ofJson` also validates it.
-/

namespace PlanReplay

open JsonValue

namespace ElevatorParams

/-- The fields of the elevator's configuration. -/
def shape : RecordShape (ElevatorParams Float) where
  name := "ElevatorParams"
  strict := true
  fields :=
    [.optional "distance_per_floor" readFloat fun x p => { p with distancePerFloor := x },
      .optional "base_speed" readFloat fun x p => { p with baseSpeed := x },
      .optional "load_slowdown" readFloat fun x p => { p with loadSlowdown := x }]

end ElevatorParams

namespace LogisticsParams

/-- The fields of the vehicles' configuration. -/
def shape : RecordShape (LogisticsParams Float) where
  name := "LogisticsParams"
  strict := true
  fields :=
    [.optional "drive_fuel_cost" readFloat fun x p => { p with driveFuelCost := x },
      .optional "fly_fuel_cost" readFloat fun x p => { p with flyFuelCost := x },
      .optional "fuel_capacity" readFloat fun x p => { p with fuelCapacity := x },
      .optional "initial_fuel" readOptionalFloat fun x p => { p with initialFuel := x }]

end LogisticsParams

namespace RobotParams

/-- The fields of the robots' configuration. -/
def shape : RecordShape (RobotParams Float) where
  name := "RobotParams"
  strict := true
  fields :=
    [.optional "route_length" readFloat fun x p => { p with routeLength := x },
      .optional "move_speed" readFloat fun x p => { p with moveSpeed := x },
      .optional "battery_drain_rate" readFloat fun x p => { p with drainRate := x },
      .optional "depletion_threshold" readFloat fun x p => { p with depletionThreshold := x },
      .optional "charge_rate" readFloat fun x p => { p with chargeRate := x },
      .optional "battery_capacity" readFloat fun x p => { p with batteryCapacity := x }]

end RobotParams

/-- Why a text is no configuration. -/
inductive ConfigError where
  | unreadable (fault : JsonFault)
  | invalid (fault : ConfigFault Float)

def ConfigError.message : ConfigError → String
  | .unreadable fault => fault.message "run config"
  | .invalid fault => fault.message

namespace RunConfig

/-- The fields of a configuration. -/
def shape : RecordShape (RunConfig Float) where
  name := "RunConfig"
  strict := true
  fields :=
    [.optional "speed_multiplier" readFloat fun x c => { c with speed := x },
      .optional "default_action_duration" readFloat fun x c => { c with defaultDuration := x },
      .optional "progress_log_interval_secs" readFloat fun x c => { c with progressInterval := x },
      .optional "elevator" (ElevatorParams.shape.read RunConfig.default.elevator) fun x c => { c with elevator := x },
      .optional "logistics" (LogisticsParams.shape.read RunConfig.default.logistics) fun x c =>
        { c with logistics := x },
      .optional "robot" (RobotParams.shape.read RunConfig.default.robot) fun x c => { c with robot := x }]

/-- The configuration that a JSON text holds. -/
def ofJson (text : String) : Except ConfigError (RunConfig Float) :=
  match shape.read RunConfig.default (JsonValue.parse text) with
  | .error fault => .error (.unreadable fault)
  | .ok config =>
    match config.fault? with
    | some fault => .error (.invalid fault)
    | none => .ok config

end RunConfig

end PlanReplay

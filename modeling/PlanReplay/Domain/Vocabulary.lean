/-!
# Words of the three domains

The small enumerations that the elevator, logistics and robot domains share with messages and
configuration.
-/

namespace PlanReplay

/-- The domains whose plans can be replayed. -/
inductive DomainKind where
  | elevator
  | logistics
  | robot
deriving DecidableEq

def DomainKind.name : DomainKind → String
  | .elevator => "elevator"
  | .logistics => "logistics"
  | .robot => "robot"

/-- The way an elevator moves. -/
inductive Direction where
  | up
  | down
deriving DecidableEq

namespace Direction

/-- The name of a direction as messages write it. -/
def name : Direction → String
  | .up => "Up"
  | .down => "Down"

/-- The change of the floor index on the way to the next floor. -/
def step : Direction → Int
  | .up => 1
  | .down => -1

end Direction

/-- What a robot is doing. -/
inductive RobotPhase where
  | idle
  | moving
  | arrived
  | batteryDead
  | charging
deriving DecidableEq

namespace RobotPhase

def name : RobotPhase → String
  | .idle => "idle"
  | .moving => "moving"
  | .arrived => "arrived"
  | .batteryDead => "battery_dead"
  | .charging => "charging"

/-- Only a robot that is idle or has arrived can set off. -/
def canSetOff : RobotPhase → Bool
  | .idle | .arrived => true
  | _ => false

end RobotPhase

/-- What a robot may be asked to begin. -/
inductive RobotActivity where
  | moving
  | charging
deriving DecidableEq

def RobotActivity.name : RobotActivity → String
  | .moving => "moving"
  | .charging => "charging"

end PlanReplay

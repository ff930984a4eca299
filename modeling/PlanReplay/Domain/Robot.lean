import PlanReplay.Config.Basic
import PlanReplay.Domain.Rejection

/-!
# The robot domain

Robots carry balls between rooms. A hop between rooms takes effect at once; a travel is limited by the
battery, and a robot whose battery would fall below the threshold stops on the way. A robot that charges
gets a part of what its battery lacks.

Besides the world, the table keeps the phase of each robot: what it is doing, the phase in which the
current travel lands, and when it began to charge.
-/

namespace PlanReplay

variable {α : Type}

namespace Robot

/-- The actions of the robot domain. `resume` continues a travel that stopped on the way. -/
inductive Action where
  | move (robot start goal : EntityId)
  | pick (ball room robot : EntityId)
  | drop (ball room robot : EntityId)
  | travel (robot start goal : EntityId) (resume : Bool)
  | startCharge (robot : EntityId)
  | stopCharge (robot : EntityId)
deriving DecidableEq

namespace Action

/-- The entities that must exist for an action. -/
def referenced : Action → List EntityId
  | .move robot start goal | .travel robot start goal _ => [robot, start, goal]
  | .pick ball room robot | .drop ball room robot => [ball, room, robot]
  | .startCharge robot | .stopCharge robot => [robot]

/-- An action with three arguments. -/
def decodeThree (make : EntityId → EntityId → EntityId → Action) (a : TimedAction α) :
    Except DecodeError Action :=
  match a.args with
  | [first, second, third] => .ok (make first second third)
  | _ => .error (a.arityError "3")

/-- An action with one argument. -/
def decodeOne (make : EntityId → Action) (a : TimedAction α) : Except DecodeError Action :=
  match a.args with
  | [only] => .ok (make only)
  | _ => .error (a.arityError "1")

/-- The action of the domain that an action of a plan stands for. -/
def decode (a : TimedAction α) : Except DecodeError Action :=
  match a.name with
  | "move" => decodeThree .move a
  | "pick" => decodeThree .pick a
  | "drop" => decodeThree .drop a
  | "startmove" => decodeThree (fun robot start goal => .travel robot start goal false) a
  | "reprisemovement" => decodeThree (fun robot start goal => .travel robot start goal true) a
  | "startcharge" => decodeOne .startCharge a
  | "stopcharge" => decodeOne .stopCharge a
  | verb => .error (.unknownVerb .robot verb)

end Action

/-- What the table keeps about a robot. -/
structure Status (α : Type) where
  phase : RobotPhase
  /-- The phase in which the current travel lands. -/
  landing : Option RobotPhase
  chargeStarted : Option α
deriving DecidableEq

namespace Status

/-- The status of a robot before its first action. -/
def initial : Status α := ⟨.idle, none, none⟩

end Status

/-- What a run of the robot domain knows besides the world. -/
structure Table (α : Type) where
  params : RobotParams α
  defaultDuration : α
  /-- Whether the problem says which robots have a free gripper. -/
  usesGripper : Bool
  robots : OrderedMap EntityId (Status α)
deriving DecidableEq

/-- How a travel plays out: its length, the part of it that is covered, and the battery afterwards. -/
structure Route (α : Type) where
  length : α
  travelled : α
  batteryAfter : Option α
deriving DecidableEq

/-- Whether a travel reaches its goal. -/
def Route.arrives [Scalar α] (r : Route α) : Bool := decide (r.length ≤ r.travelled)

/-- The name of the facts that tell which robots have a free gripper. -/
def free : String := "free"

/-- The level that keeps what is left of a travel that stopped on the way. -/
def routeRemaining : ResourceKey := .other "route-remaining"

namespace Table

/-- The table before a run. -/
def ofConfig (config : RunConfig α) : Table α := ⟨config.robot, config.defaultDuration, false, .empty⟩

/-- The status of a robot; one that is not known is as before its first action. -/
def status (t : Table α) (robot : EntityId) : Status α := (t.robots.get? robot).getD .initial

/-- The phase of a robot. -/
def phase (t : Table α) (robot : EntityId) : RobotPhase := (t.status robot).phase

/-- The table for a world, and the effects that complete the world: a full battery for each robot
without a level. -/
def prepare (t : Table α) (w : World α) : Table α × List (Effect α) :=
  let robots := w.entitiesOfKind .robot
  ({ t with
      usesGripper := w.hasFactsNamed free
      robots := robots.foldl (fun statuses robot => statuses.insert robot .initial) .empty },
    (robots.filter fun robot => (w.level? robot .battery).isNone).map
      fun robot => .setLevel robot .battery t.params.batteryCapacity)

variable [Scalar α]

/-- The length of a travel: what is left of the interrupted one if it is resumed, or else the distance
between the rooms, or else the usual length. -/
def routeLength (t : Table α) (w : World α) (robot start goal : EntityId) (resume : Bool) : α :=
  let left := if resume then (w.level? robot routeRemaining).filter fun x => decide (0 < x) else none
  let distance := (w.fluent? .distance [start, goal]).filter fun x => decide (0 < x)
  (left.or distance).getD t.params.routeLength

/-- How a travel plays out. A robot without a battery level always arrives. -/
def route (t : Table α) (w : World α) (robot start goal : EntityId) (resume : Bool) : Route α :=
  let length := t.routeLength w robot start goal resume
  match w.level? robot .battery with
  | none => ⟨length, length, none⟩
  | some battery =>
    let drain := t.params.drainRate / t.params.moveSpeed
    let needed := drain * length
    let spare := Scalar.nonNegative (battery - t.params.depletionThreshold)
    if needed ≤ spare ∨ drain ≤ 0 then ⟨length, length, some (battery - needed)⟩
    else ⟨length, spare / drain, some t.params.depletionThreshold⟩

/-- The violation by a robot that is not in a room. -/
def awayFrom? (w : World α) (robot room : EntityId) : Option (Violation α) :=
  if w.holds ⟨.isAt, robot, room⟩ then none else some (.missingRelation ⟨.isAt, robot, room⟩)

/-- The violation by a robot whose battery is not above the threshold. -/
def depleted? (t : Table α) (w : World α) (robot : EntityId) : Option (Violation α) :=
  match w.level? robot .battery with
  | some battery =>
    if battery ≤ t.params.depletionThreshold then
      some (.insufficientResource robot .battery t.params.depletionThreshold battery)
    else
      none
  | none => none

/-- The violation by rooms that are not connected, in a world that tells which are. -/
def disconnected? (w : World α) (start goal : EntityId) : Option (Violation α) :=
  if w.hasRelations .connected && !w.holds ⟨.connected, start, goal⟩ && !w.holds ⟨.connected, goal, start⟩ then
    some (.missingRelation ⟨.connected, start, goal⟩)
  else
    none

/-- The effects of a hop between rooms. -/
def move (t : Table α) (w : World α) (robot start goal : EntityId) : Except (Violation α) (List (Effect α)) :=
  match (awayFrom? w robot start).or ((disconnected? w start goal).or (t.depleted? w robot)) with
  | some violation => .error violation
  | none => .ok [.relate ⟨.isAt, robot, goal⟩]

/-- The effects of a travel. -/
def travel (t : Table α) (w : World α) (robot start goal : EntityId) (resume : Bool) :
    Except (Violation α) (List (Effect α)) :=
  if (t.phase robot).canSetOff then
    match (awayFrom? w robot start).or (t.depleted? w robot) with
    | some violation => .error violation
    | none =>
      let route := t.route w robot start goal resume
      let drained : List (Effect α) :=
        match route.batteryAfter with
        | some battery => [.setLevel robot .battery battery]
        | none => []
      let outcome : List (Effect α) :=
        if route.arrives then
          .relate ⟨.isAt, robot, goal⟩ ::
            (if (w.level? robot routeRemaining).isSome then [.setLevel robot routeRemaining 0] else [])
        else
          [.setLevel robot routeRemaining (route.length - route.travelled)]
      .ok (drained ++ outcome)
  else
    .error (.precondition (.cannotStart robot .moving (t.phase robot)))

/-- The effects of picking up a ball. -/
def pick (t : Table α) (w : World α) (ball room robot : EntityId) : Except (Violation α) (List (Effect α)) :=
  match (awayFrom? w robot room).or (awayFrom? w ball room) with
  | some violation => .error violation
  | none =>
    let taken : List (Effect α) := [.unrelate ⟨.isAt, ball, room⟩, .relate ⟨.carries, robot, ball⟩]
    if t.usesGripper then
      if w.hasFact ⟨free, [robot]⟩ then .ok (taken ++ [.retract ⟨free, [robot]⟩])
      else .error (.missingFact ⟨free, [robot]⟩)
    else
      .ok taken

/-- The effects of putting down a ball. -/
def drop (t : Table α) (w : World α) (ball room robot : EntityId) : Except (Violation α) (List (Effect α)) :=
  match awayFrom? w robot room with
  | some violation => .error violation
  | none =>
    if w.holds ⟨.carries, robot, ball⟩ then
      .ok ([.unrelate ⟨.carries, robot, ball⟩, .relate ⟨.isAt, ball, room⟩]
        ++ if t.usesGripper then [.assert ⟨free, [robot]⟩] else [])
    else
      .error (.missingRelation ⟨.carries, robot, ball⟩)

/-- The battery level after a time of charging: of what is missing, a part decays exponentially. -/
def chargedLevel (t : Table α) (level elapsed : α) : α :=
  let full := t.params.batteryCapacity
  let missing := (full - level) * Scalar.exp (-t.params.chargeRate * Scalar.nonNegative elapsed)
  Scalar.clamp (Scalar.smaller level full) full (full - missing)

/-- The time for which a robot has been charging at a point of the clock. -/
def chargeElapsed (t : Table α) (robot : EntityId) (clock : α) : α :=
  match (t.status robot).chargeStarted with
  | some started => Scalar.nonNegative (clock - started)
  | none => 0

/-- The effects of beginning to charge. -/
def startCharge (t : Table α) (robot : EntityId) : Except (Violation α) (List (Effect α)) :=
  match t.phase robot with
  | .charging | .moving => .error (.precondition (.cannotStart robot .charging (t.phase robot)))
  | _ => .ok []

/-- The effects of ending to charge. -/
def stopCharge (t : Table α) (w : World α) (clock : α) (robot : EntityId) :
    Except (Violation α) (List (Effect α)) :=
  if t.phase robot = .charging then
    match w.level? robot .battery with
    | some level => .ok [.setLevel robot .battery (t.chargedLevel level (t.chargeElapsed robot clock))]
    | none => .ok []
  else
    .error (.precondition (.notCharging robot (t.phase robot)))

/-- The effects of an action, or the precondition that fails. -/
def effects (t : Table α) (w : World α) (clock : α) : Action → Except (Violation α) (List (Effect α))
  | .move robot start goal => t.move w robot start goal
  | .pick ball room robot => t.pick w ball room robot
  | .drop ball room robot => t.drop w ball room robot
  | .travel robot start goal resume => t.travel w robot start goal resume
  | .startCharge robot => t.startCharge robot
  | .stopCharge robot => t.stopCharge w clock robot

/-- What an action looks like, seen from the world and the table before it. -/
def transition (t : Table α) (w : World α) (a : TimedAction α) (clock : α) : Action → Transition α
  | .move robot start goal =>
    ⟨a.name, some robot, .move, .entity start, .entity goal, .elapsed (a.durationOr t.defaultDuration)⟩
  | .pick ball room robot =>
    ⟨a.name, some ball, .attach, .entity room, .entity robot, .elapsed (a.durationOr t.defaultDuration)⟩
  | .drop ball room robot =>
    ⟨a.name, some ball, .detach, .entity robot, .entity room, .elapsed (a.durationOr t.defaultDuration)⟩
  | .travel robot start goal resume =>
    let route := t.route w robot start goal resume
    let reached : Endpoint α :=
      if route.arrives then .entity goal
      else .between start goal (if 0 < route.length then route.travelled / route.length else 0)
    ⟨a.name, some robot, .move, .entity start, reached, .distance route.travelled t.params.moveSpeed⟩
  | .startCharge robot =>
    let level := (w.level? robot .battery).getD 0
    ⟨a.name, some robot, .marker, .level level, .level level, .elapsed a.duration⟩
  | .stopCharge robot =>
    let before := (w.level? robot .battery).getD t.params.batteryCapacity
    let after := ((w.level? robot .battery).map fun level =>
      t.chargedLevel level (t.chargeElapsed robot clock)).getD before
    ⟨a.name, some robot, .consumeResource, .level before, .level after, .elapsed a.duration⟩

omit [Scalar α] in
/-- Puts a robot into a phase and changes the rest of its status; reports the change of phase if there is
one. -/
def enter (t : Table α) (robot : EntityId) (phase : RobotPhase) (update : Status α → Status α) :
    Table α × List PhaseChange :=
  let status := t.status robot
  ({ t with robots := t.robots.insert robot { update status with phase := phase } },
    if status.phase = phase then [] else [⟨robot, status.phase, phase⟩])

omit [Scalar α] in
/-- The table after an accepted action, seen from the world after it. -/
def commit (t : Table α) (after : World α) (clock : α) : Action → Table α × List PhaseChange
  | .travel robot _ goal _ =>
    let landing := if after.holds ⟨.isAt, robot, goal⟩ then RobotPhase.arrived else .batteryDead
    t.enter robot .moving fun status => { status with landing := some landing }
  | .startCharge robot => t.enter robot .charging fun status => { status with chargeStarted := some clock }
  | .stopCharge robot => t.enter robot .idle fun status => { status with chargeStarted := none }
  | _ => (t, [])

omit [Scalar α] in
/-- The table after the transition of an action is finished: a travel lands. -/
def finish (t : Table α) : Action → Table α × List PhaseChange
  | .travel robot _ _ _ =>
    match (t.status robot).landing with
    | some phase => t.enter robot phase fun status => { status with landing := none }
    | none => (t, [])
  | _ => (t, [])

omit [Scalar α] in
/-- The table after every travel has landed. -/
def settle (t : Table α) : Table α × List PhaseChange :=
  ({ t with robots := t.robots.map fun _ status =>
      { status with phase := status.landing.getD status.phase, landing := none } },
    t.robots.toList.filterMap fun (robot, status) =>
      match status.landing with
      | some phase => if status.phase = phase then none else some ⟨robot, status.phase, phase⟩
      | none => none)

end Table

end Robot

end PlanReplay

import PlanReplay.Config.Basic
import PlanReplay.Domain.Rejection
import PlanReplay.Ordered.Sort

/-!
# The elevator domain

People wait at floors, ride in elevators and are let out. Floors are ordered along the `above` relation,
bottom first. An elevator is where its `at` relation says or, without one, where its floor index points in
that order.
-/

namespace PlanReplay

variable {α : Type}

/-! ## The order of the floors -/

namespace World

/-- The floors of a world: its entities of that kind and all that stand in the `above` relation. -/
def floors (w : World α) : OrderedSet EntityId :=
  .ofList (w.entitiesOfKind .floor ++
    (w.relations.filter fun r => r.kind = .above).flatMap fun r => [r.subject, r.object])

/-- The number of floors that lie below one another under `floor`, walking at most `depth` steps down.
Heights that are known are taken from `known`, and new ones are added. -/
def heightOf (w : World α) : Nat → EntityId → OrderedMap EntityId Nat → Nat × OrderedMap EntityId Nat
  | depth, floor, known =>
    match known.get? floor with
    | some height => (height, known)
    | none =>
      match depth with
      | 0 => (0, known)
      | depth + 1 =>
        let (height, known) := (w.related .above floor).foldl (fun (highest, known) lower =>
            let (height, known) := heightOf w depth lower known
            (max highest (height + 1), known))
          (0, known)
        (height, known.insert floor height)

/-- The heights of all floors. A chain of floors above one another is cut at the number of floors, which
only a cycle exceeds. -/
def heights (w : World α) : OrderedMap EntityId Nat :=
  let floors := w.floors.toList
  floors.foldl (fun known floor => (w.heightOf (floors.length + 1) floor known).2) .empty

/-- The floors from the bottom to the top; floors of one height are ordered by name. -/
def floorOrder (w : World α) : List EntityId :=
  let heights := w.heights
  sortByKey (fun floor => (heights.get? floor).getD 0) w.floors.toList

end World

namespace Elevator

/-- The actions of the elevator domain. Without floors, a move goes to the next floor. -/
inductive Action where
  | move (direction : Direction) (elevator : EntityId) (floors : Option (EntityId × EntityId))
  | load (person elevator : EntityId) (floor : Option EntityId)
  | unload (person elevator : EntityId) (floor : Option EntityId)
  | reached (person floor : EntityId)
deriving DecidableEq

/-- What a run of the elevator domain knows besides the world. -/
structure Table (α : Type) where
  params : ElevatorParams α
  defaultDuration : α
  /-- The floors from the bottom to the top. -/
  floorOrder : List EntityId
deriving DecidableEq

namespace Action

/-- The entities that must exist for an action. -/
def referenced : Action → List EntityId
  | .move _ elevator floors =>
    match floors with
    | some (start, goal) => [elevator, start, goal]
    | none => [elevator]
  | .load person elevator floor | .unload person elevator floor => person :: elevator :: floor.toList
  | .reached person floor => [person, floor]

/-- A move with the given arguments. -/
def decodeMove (direction : Direction) (a : TimedAction α) : Except DecodeError Action :=
  match a.args with
  | [elevator] => .ok (.move direction elevator none)
  | [elevator, start, goal] => .ok (.move direction elevator (some (start, goal)))
  | _ => .error (a.arityError "1 or 3")

/-- The action of the domain that an action of a plan stands for. -/
def decode (a : TimedAction α) : Except DecodeError Action :=
  match a.name with
  | "move-up" | "up" => decodeMove .up a
  | "move-down" | "down" => decodeMove .down a
  | "load" | "board" =>
    match a.args with
    | [person, elevator] => .ok (.load person elevator none)
    | [person, elevator, floor] => .ok (.load person elevator (some floor))
    | _ => .error (a.arityError "2 or 3")
  | "unload" | "depart" =>
    match a.args with
    | [person, elevator] => .ok (.unload person elevator none)
    | [person, elevator, floor] => .ok (.unload person elevator (some floor))
    | _ => .error (a.arityError "2 or 3")
  | "reached" =>
    match a.args with
    | [person, floor] => .ok (.reached person floor)
    | _ => .error (a.arityError "2")
  | verb => .error (.unknownVerb .elevator verb)

end Action

namespace Table

variable [Scalar α]

/-- The table before a run. -/
def ofConfig (config : RunConfig α) : Table α := ⟨config.elevator, config.defaultDuration, []⟩

/-- The effects that give an elevator the levels it lacks: no passengers where it has a capacity, no load
where it has a maximal one. -/
def seedEffects (w : World α) (elevator : EntityId) : List (Effect α) :=
  (if (w.level? elevator .capacity).isSome && (w.level? elevator .passengers).isNone
    then [.setLevel elevator .passengers 0] else []) ++
  (if (w.level? elevator .maxLoad).isSome && (w.level? elevator .load).isNone
    then [.setLevel elevator .load 0] else [])

/-- The table for a world, and the effects that complete the world. -/
def prepare (t : Table α) (w : World α) : Table α × List (Effect α) :=
  ({ t with floorOrder := w.floorOrder }, (w.entitiesOfKind .elevator).flatMap (seedEffects w))

/-- The place of a floor in the order of the floors. -/
def floorIndex? (t : Table α) (floor : EntityId) : Option Nat := t.floorOrder.idxOf? floor

/-- The floor an elevator is at. -/
def elevatorFloor? (t : Table α) (w : World α) (elevator : EntityId) : Option EntityId :=
  match w.related? .isAt elevator with
  | some floor => some floor
  | none =>
    match w.level? elevator .floorIndex with
    | some index => if index < 0 then none else t.floorOrder[Scalar.position index]?
    | none => none

/-- The floor index from which an elevator moves. -/
def currentIndex? (t : Table α) (w : World α) (elevator : EntityId) : Option Int :=
  match w.level? elevator .floorIndex with
  | some index => some (Scalar.nearest index)
  | none => ((w.related? .isAt elevator).bind t.floorIndex?).map fun index => (index : Int)

/-- The number of floors, where anything tells it: the fluent `floors`, or the order of the floors. -/
def floorCount? (t : Table α) (w : World α) : Option Int :=
  match w.fluent? (.other "floors") [] with
  | some count => some (Scalar.truncate count)
  | none => if t.floorOrder.isEmpty then none else some t.floorOrder.length

/-- Whether `upper` is above `lower`: by their places in the order of the floors where both have one, and otherwise by
the relation. -/
def goesAlong (t : Table α) (w : World α) (upper lower : EntityId) : Bool :=
  match t.floorIndex? upper, t.floorIndex? lower with
  | some upperIndex, some lowerIndex => decide (lowerIndex < upperIndex)
  | _, _ => w.holds ⟨.above, upper, lower⟩

/-- The effects of setting the floor index of an elevator that has one. -/
def indexEffects (w : World α) (elevator : EntityId) : Option Int → List (Effect α)
  | some target =>
    if (w.level? elevator .floorIndex).isSome then [.setLevel elevator .floorIndex (Scalar.ofInt target)] else []
  | none => []

/-- The effects of a move between two named floors. -/
def moveBetween (t : Table α) (w : World α) (direction : Direction) (elevator start goal : EntityId) :
    Except (Violation α) (List (Effect α)) :=
  let upper := match direction with | .up => goal | .down => start
  let lower := match direction with | .up => start | .down => goal
  let arrival : Except (Violation α) (List (Effect α)) :=
    if w.hasRelations .above && !t.goesAlong w upper lower then
      .error (.precondition (.notAbove upper lower))
    else
      .ok (.relate ⟨.isAt, elevator, goal⟩ ::
        indexEffects w elevator ((t.floorIndex? goal).map fun index => (index : Int)))
  match w.related? .isAt elevator with
  | some current =>
    if current = start then arrival else .error (.precondition (.elsewhere elevator current start))
  | none => arrival

/-- The effects of a move to the next floor. The program ends over one that has no number. -/
def moveNext (t : Table α) (w : World α) (direction : Direction) (elevator : EntityId) :
    Except (Failure (Violation α)) (List (Effect α)) :=
  match t.currentIndex? w elevator with
  | none => .error (.refused (.precondition (.unknownFloor elevator)))
  | some current =>
    let target := current + direction.step
    if !Scalar.fits α target then .error (.crashed (.floorOverflow elevator current))
    else if target < 0 || (t.floorCount? w).any fun count => decide (count ≤ target) then
      .error (.refused (.precondition (.noFloorBeyond elevator direction current)))
    else
      let arrival : List (Effect α) :=
        match w.related? .isAt elevator, t.floorOrder[target.toNat]? with
        | some _, some floor => [.relate ⟨.isAt, elevator, floor⟩]
        | _, _ => []
      .ok (arrival ++ indexEffects w elevator (some target))

/-- The violation by a level that an addition would bring above its limit. -/
def exceeds? (w : World α) (entity : EntityId) (key limitKey : ResourceKey) (added : α) : Option (Violation α) :=
  match w.level? entity limitKey with
  | some limit =>
    let value := (w.level? entity key).getD 0 + added
    if limit < value then some (.resourceExceeded entity key value limitKey limit) else none
  | none => none

/-- The effect of an addition to a level, where the entity has it. -/
def adjustEffects (w : World α) (entity : EntityId) (key : ResourceKey) (delta : α) : List (Effect α) :=
  if (w.level? entity key).isSome then [.adjust entity key delta] else []

/-- The effects of taking a person into an elevator. -/
def load (t : Table α) (w : World α) (person elevator : EntityId) (floor : Option EntityId) :
    Except (Violation α) (List (Effect α)) :=
  match w.related? .isAt person with
  | none => .error (.precondition (.notWaiting person))
  | some personFloor =>
    match floor.filter (· ≠ personFloor), (t.elevatorFloor? w elevator).filter (· ≠ personFloor) with
    | some claimed, _ => .error (.precondition (.elsewhere person personFloor claimed))
    | none, some elevatorFloor =>
      .error (.precondition (.floorsDiffer elevator elevatorFloor person personFloor))
    | none, none =>
      let weight := w.level? person .weight
      match (exceeds? w elevator .passengers .capacity 1).or
          (weight.bind fun weight => exceeds? w elevator .load .maxLoad weight) with
      | some violation => .error violation
      | none =>
        .ok ([.unrelate ⟨.isAt, person, personFloor⟩, .relate ⟨.isIn, person, elevator⟩]
          ++ adjustEffects w elevator .passengers 1
          ++ (match weight with
            | some weight => adjustEffects w elevator .load weight
            | none => []))

/-- The floor on which an elevator lets people out: the named one, or else the one it is at. -/
def dropFloor (t : Table α) (w : World α) (elevator : EntityId) (floor : Option EntityId) :
    Except (Violation α) EntityId :=
  match floor, t.elevatorFloor? w elevator with
  | some floor, some current =>
    if current = floor then .ok floor else .error (.precondition (.elsewhere elevator current floor))
  | some floor, none => .ok floor
  | none, some current => .ok current
  | none, none => .error (.precondition (.unknownFloor elevator))

/-- The effects of letting a person out of an elevator. -/
def unload (t : Table α) (w : World α) (person elevator : EntityId) (floor : Option EntityId) :
    Except (Violation α) (List (Effect α)) :=
  if w.holds ⟨.isIn, person, elevator⟩ then
    match t.dropFloor w elevator floor with
    | .error violation => .error violation
    | .ok place =>
      .ok ([.unrelate ⟨.isIn, person, elevator⟩, .relate ⟨.isAt, person, place⟩]
        ++ adjustEffects w elevator .passengers (-1)
        ++ (match w.level? person .weight with
          | some weight => adjustEffects w elevator .load (-weight)
          | none => []))
  else
    .error (.missingRelation ⟨.isIn, person, elevator⟩)

/-- The effects of noting that a person has reached a floor. -/
def noteReached (w : World α) (person floor : EntityId) : Except (Violation α) (List (Effect α)) :=
  if w.holds ⟨.isAt, person, floor⟩ then
    .ok (if w.hasFact ⟨"reached", [person, floor]⟩ then [] else [.assert ⟨"reached", [person, floor]⟩])
  else
    .error (.missingRelation ⟨.isAt, person, floor⟩)

/-- The effects of an action, or the precondition that fails. -/
def effects (t : Table α) (w : World α) : Action → Except (Failure (Violation α)) (List (Effect α))
  | .move direction elevator (some (start, goal)) => refusing (t.moveBetween w direction elevator start goal)
  | .move direction elevator none => t.moveNext w direction elevator
  | .load person elevator floor => refusing (t.load w person elevator floor)
  | .unload person elevator floor => refusing (t.unload w person elevator floor)
  | .reached person floor => refusing (noteReached w person floor)

/-- The speed of an elevator under its load. -/
def speed (t : Table α) (w : World α) (elevator : EntityId) : α :=
  let load := (w.level? elevator .load).getD 0
  let ratio :=
    match w.level? elevator .maxLoad with
    | some maxLoad => if 0 < maxLoad then Scalar.clamp 0 1 (load / maxLoad) else 0
    | none => 0
  t.params.baseSpeed * (1 - t.params.loadSlowdown * ratio)

/-- The number of floors between two floors, one where it is not known. -/
def floorsBetween (t : Table α) (start goal : EntityId) : α :=
  match t.floorIndex? start, t.floorIndex? goal with
  | some a, some b => if a = b then 1 else Scalar.ofInt ((b : Int) - a).natAbs
  | _, _ => 1

/-- When a move over a number of floors is finished: after the declared duration, or else by distance. -/
def moveCompletion (t : Table α) (w : World α) (a : TimedAction α) (elevator : EntityId) (floors : α) :
    Completion α :=
  if 0 < a.duration then .elapsed a.duration
  else .distance (floors * t.params.distancePerFloor) (t.speed w elevator)

/-- What an action looks like, seen from the world before it. -/
def transition (t : Table α) (w : World α) (a : TimedAction α) : Action → Transition α
  | .move _ elevator (some (start, goal)) =>
    ⟨a.name, some elevator, .move, .entity start, .entity goal,
      t.moveCompletion w a elevator (t.floorsBetween start goal)⟩
  | .move direction elevator none =>
    let current := (t.currentIndex? w elevator).getD 0
    ⟨a.name, some elevator, .move, .level (Scalar.ofInt current),
      .level (Scalar.ofInt (current + direction.step)), t.moveCompletion w a elevator 1⟩
  | .load person elevator _ =>
    ⟨a.name, some person, .attach, ((w.related? .isAt person).map .entity).getD .nowhere, .entity elevator,
      .elapsed (a.durationOr t.defaultDuration)⟩
  | .unload person elevator floor =>
    ⟨a.name, some person, .detach, .entity elevator,
      ((floor.or (t.elevatorFloor? w elevator)).map .entity).getD .nowhere,
      .elapsed (a.durationOr t.defaultDuration)⟩
  | .reached person floor =>
    ⟨a.name, some person, .marker, .entity floor, .entity floor, .elapsed a.duration⟩

end Table

end Elevator

end PlanReplay

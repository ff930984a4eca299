import PlanReplay.Domain.Table
import PlanReplay.Proofs.World.Shift

/-!
# What accepted actions do

The effects of an action and its transition are computed apart, each from the world before the action. A deed is
what the two agree on: someone goes to a place, is taken up or let out, stops on the way, climbs, or uses a
resource. Every accepted action of the three domains is a deed; what else holds of accepted actions is read off
deeds and need not look at the actions again.

* `DomainAction.scope` — what an action may change besides where its subject is.
* `Deed` — the ways in which a transition tells what effects do.
* `ActionTable.deed_of_dispatch` — an accepted action is a wait or a deed.
-/

namespace PlanReplay

variable {α : Type}

-- ---------------------------------------------------------------------------
-- Scopes
-- ---------------------------------------------------------------------------

/-- An elevator action changes levels of its elevator; noting who has reached a floor changes that fact. -/
def Elevator.Action.scope : Elevator.Action → Scope
  | .move _ elevator _ | .load _ elevator _ | .unload _ elevator _ => ⟨some elevator, []⟩
  | .reached person floor => ⟨none, [⟨"reached", [person, floor]⟩]⟩

/-- A logistics action changes levels of its vehicle. -/
def Logistics.Action.scope : Logistics.Action → Scope
  | .load _ vehicle _ | .unload _ vehicle _ | .travel _ vehicle _ _ _ _ | .refuel vehicle _ => ⟨some vehicle, []⟩

/-- A robot action changes levels of its robot and whether its gripper is free. -/
def Robot.Action.scope : Robot.Action → Scope
  | .move robot _ _ | .pick _ _ robot | .drop _ _ robot | .travel robot _ _ _ | .startCharge robot
  | .stopCharge robot => ⟨some robot, [⟨Robot.free, [robot]⟩]⟩

/-- What an action may change besides where its subject is. A wait changes nothing. -/
def DomainAction.scope : DomainAction → Scope
  | .elevator action => action.scope
  | .logistics action => action.scope
  | .robot action => action.scope
  | .wait => ⟨none, []⟩

/-- The level that the movers of a domain use up and fill. -/
def DomainKind.resource? : DomainKind → Option ResourceKey
  | .elevator => none
  | .logistics => some .fuel
  | .robot => some .battery

-- ---------------------------------------------------------------------------
-- Deeds
-- ---------------------------------------------------------------------------

section

variable [Scalar α]

/-- The transition tells what the effects do to the world `w`. -/
inductive Deed (resource? : Option ResourceKey) (scope : Scope) (w : World α) (effects : List (Effect α)) :
    Transition α → Prop where
  /-- Someone goes to a place. -/
  | go {name : String} {x goal : EntityId} {start : Endpoint α} {completion : Completion α}
      (hShift : Shift scope x effects (some (.isAt goal))) :
      Deed resource? scope w effects ⟨name, some x, .move, start, .entity goal, completion⟩
  /-- Someone at a place is taken up. -/
  | attach {name : String} {x place holder : EntityId} {completion : Completion α} (held : Placement)
      (hHolder : held.holder? = some holder) (hPlace : w.holds ((Placement.isAt place).relation x) = true)
      (hShift : Shift scope x effects (some held)) :
      Deed resource? scope w effects ⟨name, some x, .attach, .entity place, .entity holder, completion⟩
  /-- Someone who is held is let out. -/
  | detach {name : String} {x place holder : EntityId} {completion : Completion α} (held : Placement)
      (hHolder : held.holder? = some holder) (hHeld : w.holds (held.relation x) = true)
      (hShift : Shift scope x effects (some (.isAt place))) :
      Deed resource? scope w effects ⟨name, some x, .detach, .entity holder, .entity place, completion⟩
  /-- Someone stops on the way, where the power that can be spared runs out; what is left of the way is noted. -/
  | stop {name : String} {x room goal : EntityId} {start : Endpoint α} {completion : Completion α}
      {length travelled : α}
      (hTravelled : travelled = length ∨ ∃ spare drain, ¬ drain ≤ 0 ∧ travelled = Scalar.nonNegative spare / drain)
      (hShort : ¬ length ≤ travelled) (hShift : Shift scope x effects none)
      (hLeft : effects.getLast? = some (.setLevel x Robot.routeRemaining (length - travelled))) :
      Deed resource? scope w effects
        ⟨name, some x, .move, start, .between room goal (if 0 < length then travelled / length else 0), completion⟩
  /-- An elevator goes to a floor that is told by its number, and notes the number if it has one. -/
  | climb {name : String} {x : EntityId} {start : Endpoint α} {completion : Completion α} {number : α}
      {landing : Option Placement} (hShift : Shift scope x effects landing)
      (hNumber : (w.level? x .floorIndex).isSome = true →
        effects.getLast? = some (.setLevel x .floorIndex number)) :
      Deed resource? scope w effects ⟨name, some x, .move, start, .level number, completion⟩
  /-- A resource of the domain goes from one level to another, if there is a level at all. -/
  | consume {name : String} {x : EntityId} {completion : Completion α} {key : ResourceKey} {before after : α}
      (hKey : resource? = some key) (hShift : Shift scope x effects none)
      (hLevel : ∀ level, w.level? x key = some level →
        level = before ∧ effects.getLast? = some (.setLevel x key after)) :
      Deed resource? scope w effects ⟨name, some x, .consumeResource, .level before, .level after, completion⟩
  /-- Nothing happens that can be seen. -/
  | mark {name : String} {x : EntityId} {start goal : Endpoint α} {completion : Completion α}
      (hShift : Shift scope x effects none) :
      Deed resource? scope w effects ⟨name, some x, .marker, start, goal, completion⟩

/-- Whatever a deed is, its batch leaves every entity where it is or puts its subject somewhere. -/
theorem Deed.shift {resource? : Option ResourceKey} {scope : Scope} {w : World α} {effects : List (Effect α)}
    {transition : Transition α} (h : Deed resource? scope w effects transition) :
    ∃ x landing, transition.subject = some x ∧ Shift scope x effects landing := by
  cases h with
  | go hShift => exact ⟨_, _, rfl, hShift⟩
  | attach _ _ _ hShift => exact ⟨_, _, rfl, hShift⟩
  | detach _ _ _ hShift => exact ⟨_, _, rfl, hShift⟩
  | stop _ _ hShift _ => exact ⟨_, _, rfl, hShift⟩
  | climb hShift _ => exact ⟨_, _, rfl, hShift⟩
  | consume _ hShift _ => exact ⟨_, _, rfl, hShift⟩
  | mark hShift => exact ⟨_, _, rfl, hShift⟩

end

-- ---------------------------------------------------------------------------
-- Elevators
-- ---------------------------------------------------------------------------

namespace Elevator.Table

variable [Scalar α] {t : Table α} {w : World α} {scope : Scope} {elevator : EntityId}

/-- The floor index is set last, and only where there is one. -/
theorem indexEffects_within (hMover : scope.mover? = some elevator) (target : Option Int) :
    ∀ effect ∈ indexEffects w elevator target, effect.Within scope := by
  cases target with
  | none => exact List.forall_mem_nil _
  | some target =>
    dsimp only [indexEffects]
    split
    · exact List.forall_mem_singleton.mpr (Effect.setLevel_within hMover _ _)
    · exact List.forall_mem_nil _

omit [Scalar α] in
theorem adjustEffects_within (hMover : scope.mover? = some elevator) (key : ResourceKey) (delta : α) :
    ∀ effect ∈ adjustEffects w elevator key delta, effect.Within scope := by
  unfold adjustEffects
  split
  · exact List.forall_mem_singleton.mpr (Effect.adjust_within hMover _ _)
  · exact List.forall_mem_nil _

omit [Scalar α] in
/-- What getting in or out changes of the levels of an elevator: the passengers and, where it is known, the
load. -/
theorem burden_within (hMover : scope.mover? = some elevator) (count : α) (weight : Option α) (sign : α → α) :
    ∀ effect ∈ adjustEffects w elevator .passengers count ++
      (match weight with
        | some weight => adjustEffects w elevator .load (sign weight)
        | none => []), effect.Within scope := by
  rw [List.forall_mem_append]
  refine ⟨adjustEffects_within hMover _ _, ?_⟩
  cases weight with
  | none => exact List.forall_mem_nil _
  | some weight => exact adjustEffects_within hMover _ _

/-- A move between two floors puts the elevator at the second one. -/
theorem moveBetween_shift {direction : Direction} {start goal : EntityId} {effects : List (Effect α)}
    (hMover : scope.mover? = some elevator) (h : t.moveBetween w direction elevator start goal = .ok effects) :
    Shift scope elevator effects (some (.isAt goal)) := by
  have hArrival : ∀ {blocked : Bool} {violation : Violation α} {target : Option Int},
      (if blocked then .error violation
        else .ok (.relate ⟨.isAt, elevator, goal⟩ :: indexEffects w elevator target)) = Except.ok effects →
      Shift scope elevator effects (some (.isAt goal)) := by
    intro blocked violation target hOk
    split at hOk
    · cases hOk
    · cases hOk
      exact .enter (.isAt goal) (indexEffects_within hMover _)
  unfold moveBetween at h
  dsimp only at h
  split at h
  · split at h
    · exact hArrival h
    · cases h
  · exact hArrival h

/-- A move to the next floor is a move to the number that its transition tells. -/
theorem moveNext_shift {direction : Direction} {effects : List (Effect α)} (hMover : scope.mover? = some elevator)
    (h : t.moveNext w direction elevator = .ok effects) :
    (∃ landing, Shift scope elevator effects landing) ∧
      ((w.level? elevator .floorIndex).isSome = true →
        effects.getLast? = some (.setLevel elevator .floorIndex
          (Scalar.ofInt ((t.currentIndex? w elevator).getD 0 + direction.step)))) := by
  unfold moveNext at h
  split at h
  · cases h
  · rename_i current hCurrent
    rw [hCurrent]
    dsimp only at h
    split at h
    · cases h
    split at h
    · cases h
    cases h
    refine ⟨?_, ?_⟩
    · -- only an elevator that is at a floor is put at the next one
      split
      · exact ⟨_, .enter (.isAt _) (indexEffects_within hMover _)⟩
      · rw [List.nil_append]
        exact ⟨_, .stay (indexEffects_within hMover _)⟩
    · intro hIndex
      rw [indexEffects, if_pos hIndex]
      exact List.getLast?_concat

theorem load_deed {person : EntityId} {floor : Option EntityId} {effects : List (Effect α)} (a : TimedAction α)
    (h : t.load w person elevator floor = .ok effects) :
    Deed none (Action.load person elevator floor).scope w effects (t.transition w a (.load person elevator floor)) := by
  unfold load at h
  split at h
  · cases h
  · rename_i place hPlace
    split at h
    · cases h
    · cases h
    · dsimp only at h
      split at h
      · cases h
      · cases h
        dsimp only [transition]
        rw [hPlace, List.append_assoc]
        exact .attach (.isIn elevator) rfl (World.holds_of_related? hPlace)
          (.change (.isAt place) (.isIn elevator) (burden_within rfl 1 _ id))

/-- The floor on which people are let out is the one that the transition tells. -/
theorem dropFloor_eq {floor : Option EntityId} {place : EntityId} (h : t.dropFloor w elevator floor = .ok place) :
    floor.or (t.elevatorFloor? w elevator) = some place := by
  unfold dropFloor at h
  split at h
  · split at h
    · cases h
      rfl
    · cases h
  · cases h
    rfl
  · cases h
    rename_i hCurrent
    rw [hCurrent]
    rfl
  · cases h

theorem unload_deed {person : EntityId} {floor : Option EntityId} {effects : List (Effect α)} (a : TimedAction α)
    (h : t.unload w person elevator floor = .ok effects) :
    Deed none (Action.unload person elevator floor).scope w effects
      (t.transition w a (.unload person elevator floor)) := by
  unfold unload at h
  split at h
  · rename_i hHeld
    split at h
    · cases h
    · rename_i place hDrop
      cases h
      dsimp only [transition]
      rw [dropFloor_eq hDrop, List.append_assoc]
      exact .detach (.isIn elevator) rfl hHeld
        (.change (.isIn elevator) (.isAt place) (burden_within rfl (-1) _ fun weight => -weight))
  · cases h

/-- Every action of an elevator is a deed. -/
theorem deed {action : Action} {effects : List (Effect α)} (a : TimedAction α) (h : t.effects w action = .ok effects) :
    Deed none action.scope w effects (t.transition w a action) := by
  cases action with
  | move direction elevator floors =>
    cases floors with
    | none =>
      have hMover : (Action.move direction elevator none).scope.mover? = some elevator := rfl
      obtain ⟨⟨landing, hShift⟩, hNumber⟩ := moveNext_shift hMover h
      exact .climb hShift hNumber
    | some ends => exact .go (moveBetween_shift rfl (refusing_eq_ok_iff.mp h))
  | load person elevator floor => exact load_deed a (refusing_eq_ok_iff.mp h)
  | unload person elevator floor => exact unload_deed a (refusing_eq_ok_iff.mp h)
  | reached person floor =>
    simp only [Table.effects, noteReached, refusing_eq_ok_iff] at h
    split at h
    · cases h
      refine .mark (.stay ?_)
      split
      · exact List.forall_mem_nil _
      · exact List.forall_mem_singleton.mpr (List.mem_singleton_self _)
    · cases h

end Elevator.Table

-- ---------------------------------------------------------------------------
-- Vehicles
-- ---------------------------------------------------------------------------

namespace Logistics.Table

variable [Scalar α] {t : Table α} {w : World α}

theorem load_deed {package vehicle location : EntityId} {effects : List (Effect α)} (a : TimedAction α)
    (h : load w package vehicle location = .ok effects) :
    Deed (some .fuel) (Action.load package vehicle location).scope w effects
      (t.transition w a (.load package vehicle location)) := by
  unfold load at h
  split at h
  · rename_i hPlace
    split at h
    · cases h
      -- the package is told to be where it is first found
      have hFound : ∃ place, w.related? .isAt package = some place := by
        have hMem : location ∈ w.related .isAt package := State.mem_related_iff.mpr (of_decide_eq_true hPlace)
        exact Option.isSome_iff_exists.mp (List.isSome_head?.mpr (List.ne_nil_of_mem hMem))
      obtain ⟨place, hFirst⟩ := hFound
      dsimp only [transition]
      rw [hFirst]
      exact .attach (.isIn vehicle) rfl (World.holds_of_related? hFirst)
        (.change (.isAt location) (.isIn vehicle) (List.forall_mem_nil _))
    · cases h
  · cases h

theorem unload_deed {package vehicle location : EntityId} {effects : List (Effect α)} (a : TimedAction α)
    (h : unload w package vehicle location = .ok effects) :
    Deed (some .fuel) (Action.unload package vehicle location).scope w effects
      (t.transition w a (.unload package vehicle location)) := by
  unfold unload at h
  split at h
  · rename_i hHeld
    split at h
    · cases h
      exact .detach (.isIn vehicle) rfl hHeld (.change (.isIn vehicle) (.isAt location) (List.forall_mem_nil _))
    · cases h
  · cases h

/-- A travel puts the vehicle at its goal, with or without a level of fuel. -/
theorem travel_shift {scope : Scope} {mode : Mode} {vehicle start goal : EntityId} {crossesCities : Bool}
    {effects : List (Effect α)} (hMover : scope.mover? = some vehicle)
    (h : t.travel w mode vehicle start goal crossesCities = .ok effects) :
    Shift scope vehicle effects (some (.isAt goal)) := by
  unfold travel at h
  split at h
  · split at h
    · cases h
    · split at h
      · cases h
        exact .enter (.isAt goal) (List.forall_mem_nil _)
      · split at h
        · cases h
        · cases h
          exact .enter (.isAt goal) (List.forall_mem_singleton.mpr (Effect.adjust_within hMover _ _))
  · cases h

/-- Every action of a vehicle is a deed. -/
theorem deed {action : Action} {effects : List (Effect α)} (a : TimedAction α) (h : t.effects w action = .ok effects) :
    Deed (some .fuel) action.scope w effects (t.transition w a action) := by
  cases action with
  | load package vehicle location => exact load_deed a h
  | unload package vehicle location => exact unload_deed a h
  | travel mode vehicle start goal extra crossesCities => exact .go (travel_shift rfl h)
  | refuel vehicle location =>
    simp only [Table.effects, refuel] at h
    split at h
    · cases h
    · cases h
      refine .consume rfl (.stay (List.forall_mem_singleton.mpr (Effect.setLevel_within rfl _ _))) ?_
      intro level hLevel
      rw [hLevel]
      exact ⟨rfl, rfl⟩

end Logistics.Table

-- ---------------------------------------------------------------------------
-- Robots
-- ---------------------------------------------------------------------------

namespace Robot.Table

variable [Scalar α] {t : Table α} {w : World α}

omit [Scalar α] in
theorem holds_of_awayFrom? {entity room : EntityId} (h : awayFrom? w entity room = none) :
    w.holds ⟨.isAt, entity, room⟩ = true := by
  unfold awayFrom? at h
  split at h
  · assumption
  · cases h

theorem move_shift {scope : Scope} {robot start goal : EntityId} {effects : List (Effect α)}
    (h : t.move w robot start goal = .ok effects) : Shift scope robot effects (some (.isAt goal)) := by
  unfold move at h
  split at h
  · cases h
  · cases h
    exact .enter (.isAt goal) (List.forall_mem_nil _)

theorem pick_deed {ball room robot : EntityId} {effects : List (Effect α)} (a : TimedAction α) (clock : α)
    (h : t.pick w ball room robot = .ok effects) :
    Deed (some .battery) (Action.pick ball room robot).scope w effects
      (t.transition w a clock (.pick ball room robot)) := by
  unfold pick at h
  split at h
  · cases h
  · rename_i hNear
    obtain ⟨-, hBall⟩ := Option.or_eq_none_iff.mp hNear
    have hPlace := holds_of_awayFrom? hBall
    -- with or without a gripper
    split at h
    · split at h
      · cases h
        exact .attach (.carriedBy robot) rfl hPlace (.change (.isAt room) (.carriedBy robot)
          (List.forall_mem_singleton.mpr (List.mem_singleton_self _)))
      · cases h
    · cases h
      exact .attach (.carriedBy robot) rfl hPlace (.change (.isAt room) (.carriedBy robot) (List.forall_mem_nil _))

theorem drop_deed {ball room robot : EntityId} {effects : List (Effect α)} (a : TimedAction α) (clock : α)
    (h : t.drop w ball room robot = .ok effects) :
    Deed (some .battery) (Action.drop ball room robot).scope w effects
      (t.transition w a clock (.drop ball room robot)) := by
  unfold drop at h
  split at h
  · cases h
  · split at h
    · rename_i hHeld
      cases h
      refine .detach (.carriedBy robot) rfl hHeld (.change (.carriedBy robot) (.isAt room) ?_)
      split
      · exact List.forall_mem_singleton.mpr (List.mem_singleton_self _)
      · exact List.forall_mem_nil _
    · cases h

/-- A travel covers its length, or what the power that can be spared is enough for. -/
theorem route_travelled (robot start goal : EntityId) (resume : Bool) :
    (t.route w robot start goal resume).travelled = (t.route w robot start goal resume).length ∨
      ∃ spare drain, ¬ drain ≤ 0 ∧
        (t.route w robot start goal resume).travelled = Scalar.nonNegative spare / drain := by
  unfold route
  dsimp only
  split
  · exact Or.inl rfl
  · split
    · exact Or.inl rfl
    · rename_i hShort
      exact Or.inr ⟨_, _, fun hIdle => hShort (Or.inr hIdle), rfl⟩

theorem travel_deed {robot start goal : EntityId} {resume : Bool} {effects : List (Effect α)} (a : TimedAction α)
    (clock : α) (h : t.travel w robot start goal resume = .ok effects) :
    Deed (some .battery) (Action.travel robot start goal resume).scope w effects
      (t.transition w a clock (.travel robot start goal resume)) := by
  unfold travel at h
  split at h
  · split at h
    · cases h
    · cases h
      have hDrained : ∀ effect ∈ (match (t.route w robot start goal resume).batteryAfter with
          | some battery => [Effect.setLevel robot .battery battery]
          | none => []), effect.Within (Action.travel robot start goal resume).scope := by
        split
        · exact List.forall_mem_singleton.mpr (Effect.setLevel_within rfl _ _)
        · exact List.forall_mem_nil _
      dsimp only [transition]
      -- the robot arrives, or it is still where it was
      by_cases hArrives : (t.route w robot start goal resume).arrives = true
      · rw [if_pos hArrives, if_pos hArrives]
        refine .go (.land (x := robot) (p := .isAt goal) (fun effect hEffect => Or.inl (hDrained effect hEffect)) ?_)
        split
        · exact List.forall_mem_singleton.mpr (Effect.setLevel_within rfl _ _)
        · exact List.forall_mem_nil _
      · rw [if_neg hArrives, if_neg hArrives]
        refine .stop (route_travelled robot start goal resume) (fun hEnough => hArrives (decide_eq_true hEnough))
          (.stay ?_) List.getLast?_concat
        exact List.forall_mem_append.mpr
          ⟨hDrained, List.forall_mem_singleton.mpr (Effect.setLevel_within rfl _ _)⟩
  · cases h

omit [Scalar α] in
theorem startCharge_effects {robot : EntityId} {effects : List (Effect α)} (h : t.startCharge robot = .ok effects) :
    effects = [] := by
  unfold startCharge at h
  split at h
  · cases h
  · cases h
  · cases h
    rfl

theorem stopCharge_deed {robot : EntityId} {effects : List (Effect α)} (a : TimedAction α) (clock : α)
    (h : t.stopCharge w clock robot = .ok effects) :
    Deed (some .battery) (Action.stopCharge robot).scope w effects (t.transition w a clock (.stopCharge robot)) := by
  unfold stopCharge at h
  split at h
  · dsimp only [transition]
    split at h
    · rename_i level hLevel
      cases h
      refine .consume rfl (.stay (List.forall_mem_singleton.mpr (Effect.setLevel_within rfl _ _))) ?_
      intro other hOther
      rw [hLevel] at hOther ⊢
      cases hOther
      exact ⟨rfl, rfl⟩
    · rename_i hLevel
      cases h
      refine .consume rfl (.stay (List.forall_mem_nil _)) ?_
      intro other hOther
      rw [hLevel] at hOther
      cases hOther
  · cases h

/-- Every action of a robot is a deed. -/
theorem deed {action : Action} {effects : List (Effect α)} (a : TimedAction α) (clock : α)
    (h : t.effects w clock action = .ok effects) :
    Deed (some .battery) action.scope w effects (t.transition w a clock action) := by
  cases action with
  | move robot start goal => exact .go (move_shift h)
  | pick ball room robot => exact pick_deed a clock h
  | drop ball room robot => exact drop_deed a clock h
  | travel robot start goal resume => exact travel_deed a clock h
  | startCharge robot =>
    rw [startCharge_effects h]
    exact .mark (.stay (List.forall_mem_nil _))
  | stopCharge robot => exact stopCharge_deed a clock h

end Robot.Table

-- ---------------------------------------------------------------------------
-- Dispatch
-- ---------------------------------------------------------------------------

section

variable [Scalar α]

/-- An attempt that succeeds has found the effects, and the world has accepted them. -/
theorem World.effects_of_attempt {w next : World α} {referenced : List EntityId}
    {effects : Except (Failure (Violation α)) (List (Effect α))} (h : w.attempt referenced effects = .ok next) :
    ∃ batch, effects = .ok batch ∧ w.applyEffects batch = .ok next := by
  unfold attempt at h
  split at h
  · cases h
  · split at h
    · cases h
    · cases h
    · rename_i batch
      split at h
      · cases h
      · rename_i hApply
        cases h
        exact ⟨batch, rfl, hApply⟩

/-- An attempt on declared entities is as good as its batch. -/
theorem World.attempt_of_applyEffects {w next : World α} {referenced : List EntityId} {effects : List (Effect α)}
    (hKnown : ∀ id ∈ referenced, w.contains id = true) (h : w.applyEffects effects = .ok next) :
    w.attempt referenced (.ok effects) = .ok next := by
  have hNone : (referenced.find? fun id => !w.contains id) = none := by simpa using hKnown
  unfold attempt
  rw [hNone]
  dsimp only
  rw [h]

/-- **Accepted actions are deeds.** An accepted action is a wait, which changes nothing, or a deed whose effects
lead to the new world. -/
theorem ActionTable.deed_of_dispatch {t table : ActionTable α} {action : DomainAction} {a : TimedAction α}
    {w next : World α} {clock : α} {applied : Applied α}
    (h : t.dispatch action a w clock = .ok (table, next, applied)) :
    (next = w ∧ applied.transition.subject = none) ∨
      ∃ effects, w.applyEffects effects = .ok next ∧
        Deed t.domain.resource? action.scope w effects applied.transition := by
  unfold dispatch at h
  split at h
  · cases h
    exact Or.inl ⟨rfl, rfl⟩
  · split at h
    · rename_i hAttempt
      cases h
      obtain ⟨batch, hEffects, hApply⟩ := World.effects_of_attempt hAttempt
      exact Or.inr ⟨batch, hApply, Elevator.Table.deed a hEffects⟩
    · cases h
  · split at h
    · rename_i hAttempt
      cases h
      obtain ⟨batch, hEffects, hApply⟩ := World.effects_of_attempt hAttempt
      exact Or.inr ⟨batch, hApply, Logistics.Table.deed a (refusing_eq_ok_iff.mp hEffects)⟩
    · cases h
  · split at h
    · rename_i hAttempt
      cases h
      obtain ⟨batch, hEffects, hApply⟩ := World.effects_of_attempt hAttempt
      exact Or.inr ⟨batch, hApply, Robot.Table.deed a clock (refusing_eq_ok_iff.mp hEffects)⟩
    · cases h
  all_goals cases h

end

end PlanReplay

import PlanReplay.Proofs.Domain.Deed
import PlanReplay.Proofs.World.Spared

/-!
# What the actions of robots change

An accepted action of a robot has found its robot where it must be, and its effects are known. A hop and a travel that
arrives put the robot into a room; a travel that does not arrive leaves it where it is. The only actions that change
levels are travels and the end of charging, and they change levels of their own robot.

* `Robot.Table.move_eq_ok`, `Robot.Table.pick_eq_ok`, `Robot.Table.drop_eq_ok`, `Robot.Table.travel_eq_ok` — what the
  acceptance of an action says.
* `Robot.Table.shift_of_effects`, `Robot.Table.holds_origin` — where an action puts its subject, and where it was.
* `Robot.Table.holds_of_effects_iff` — where everyone is after an action.
* `Robot.Table.holds_goal_iff` — where a travel leaves the robot.
* `Robot.Table.fluent_of_effects` — the levels that actions change.
* `Robot.Table.battery_of_travel`, `Robot.Table.battery_of_stopCharge`, `Robot.Table.left_of_arrival`,
  `Robot.Table.left_of_short` — what they become.
-/

namespace PlanReplay

variable {α : Type}

namespace Robot.Action

/-- The robot of an action. -/
def robot : Action → EntityId
  | .move robot _ _ | .pick _ _ robot | .drop _ _ robot | .travel robot _ _ _ | .startCharge robot
  | .stopCharge robot => robot

/-- Who an action may put somewhere else: the ball that is taken up or put down, or else the robot. -/
def subject : Action → EntityId
  | .pick ball _ _ | .drop ball _ _ => ball
  | .move robot _ _ | .travel robot _ _ _ | .startCharge robot | .stopCharge robot => robot

/-- Whether an action takes up a ball or puts it down. -/
def handles : Action → Bool
  | .pick _ _ _ | .drop _ _ _ => true
  | .move _ _ _ | .travel _ _ _ _ | .startCharge _ | .stopCharge _ => false

/-- Where an action that may put its subject somewhere else has to find it. -/
def origin? : Action → Option Placement
  | .move _ start _ | .travel _ start _ _ => some (.isAt start)
  | .pick _ room _ => some (.isAt room)
  | .drop _ _ robot => some (.carriedBy robot)
  | .startCharge _ | .stopCharge _ => none

end Robot.Action

namespace Robot.Table

variable {t : Table α} {w : World α} {robot start goal : EntityId} {resume : Bool} {effects : List (Effect α)}

/-- What a travel changes of the battery. -/
def drainEffects (robot : EntityId) (route : Route α) : List (Effect α) :=
  match route.batteryAfter with
  | some battery => [.setLevel robot .battery battery]
  | none => []

/-- What taking up or putting down a ball changes: its placement, and the gripper of the robot where grippers count. -/
def handEffects (t : Table α) (old new : Relation) (gripper : Effect α) : List (Effect α) :=
  [.unrelate old, .relate new] ++ if t.usesGripper then [gripper] else []

variable [Scalar α]

/-- What a travel changes of where the robot is, and of what is left of its way. -/
def outcomeEffects (w : World α) (robot goal : EntityId) (route : Route α) : List (Effect α) :=
  if route.arrives then
    .relate ⟨.isAt, robot, goal⟩ ::
      (if (w.level? robot routeRemaining).isSome then [.setLevel robot routeRemaining 0] else [])
  else
    [.setLevel robot routeRemaining (route.length - route.travelled)]

/-- What charging changes of the battery, where the robot has one. -/
def chargeEffects (t : Table α) (w : World α) (clock : α) (robot : EntityId) : List (Effect α) :=
  match w.level? robot .battery with
  | some level => [.setLevel robot .battery (t.chargedLevel level (t.chargeElapsed robot clock))]
  | none => []

-- ---------------------------------------------------------------------------
-- What acceptance says
-- ---------------------------------------------------------------------------

theorem move_eq_ok (h : t.move w robot start goal = .ok effects) :
    w.holds ⟨.isAt, robot, start⟩ = true ∧ disconnected? w start goal = none ∧ t.depleted? w robot = none ∧
      effects = [.relate ⟨.isAt, robot, goal⟩] := by
  unfold move at h
  split at h
  · cases h
  · rename_i hNone
    cases h
    obtain ⟨hNear, hRest⟩ := Option.or_eq_none_iff.mp hNone
    obtain ⟨hConnected, hCharged⟩ := Option.or_eq_none_iff.mp hRest
    exact ⟨holds_of_awayFrom? hNear, hConnected, hCharged, rfl⟩

theorem travel_eq_ok (h : t.travel w robot start goal resume = .ok effects) :
    (t.phase robot).canSetOff = true ∧ w.holds ⟨.isAt, robot, start⟩ = true ∧ t.depleted? w robot = none ∧
      effects = drainEffects robot (t.route w robot start goal resume) ++
        outcomeEffects w robot goal (t.route w robot start goal resume) := by
  unfold travel at h
  split at h
  · rename_i hCan
    split at h
    · cases h
    · rename_i hNone
      cases h
      obtain ⟨hNear, hCharged⟩ := Option.or_eq_none_iff.mp hNone
      exact ⟨hCan, holds_of_awayFrom? hNear, hCharged, rfl⟩
  · cases h

omit [Scalar α] in
theorem pick_eq_ok {ball room : EntityId} (h : t.pick w ball room robot = .ok effects) :
    w.holds ⟨.isAt, robot, room⟩ = true ∧ w.holds ⟨.isAt, ball, room⟩ = true ∧
      (t.usesGripper = true → w.hasFact ⟨free, [robot]⟩ = true) ∧
      effects = t.handEffects ⟨.isAt, ball, room⟩ ⟨.carries, robot, ball⟩ (.retract ⟨free, [robot]⟩) := by
  unfold pick at h
  split at h
  · cases h
  · rename_i hNone
    obtain ⟨hNear, hBall⟩ := Option.or_eq_none_iff.mp hNone
    refine ⟨holds_of_awayFrom? hNear, holds_of_awayFrom? hBall, ?_⟩
    unfold handEffects
    split at h
    · rename_i hGripper
      split at h
      · rename_i hFree
        cases h
        rw [if_pos hGripper]
        exact ⟨fun _ => hFree, rfl⟩
      · cases h
    · rename_i hGripper
      cases h
      rw [if_neg hGripper, List.append_nil]
      exact ⟨fun hUses => absurd hUses hGripper, rfl⟩

omit [Scalar α] in
theorem drop_eq_ok {ball room : EntityId} (h : t.drop w ball room robot = .ok effects) :
    w.holds ⟨.isAt, robot, room⟩ = true ∧ w.holds ⟨.carries, robot, ball⟩ = true ∧
      effects = t.handEffects ⟨.carries, robot, ball⟩ ⟨.isAt, ball, room⟩ (.assert ⟨free, [robot]⟩) := by
  unfold drop at h
  split at h
  · cases h
  · rename_i hNear
    split at h
    · rename_i hHeld
      cases h
      exact ⟨holds_of_awayFrom? hNear, hHeld, rfl⟩
    · cases h

theorem stopCharge_eq_ok {clock : α} (h : t.stopCharge w clock robot = .ok effects) :
    t.phase robot = .charging ∧ effects = t.chargeEffects w clock robot := by
  unfold stopCharge at h
  unfold chargeEffects
  split at h
  · rename_i hPhase
    refine ⟨hPhase, ?_⟩
    cases hLevel : w.level? robot .battery with
    | some level =>
      rw [hLevel] at h
      cases h
      rfl
    | none =>
      rw [hLevel] at h
      cases h
      rfl
  · cases h

-- ---------------------------------------------------------------------------
-- Where entities are put
-- ---------------------------------------------------------------------------

omit [Scalar α] in
/-- A ball that is taken up or put down gets the new placement. -/
theorem hand_shift {scope : Scope} {ball : EntityId} (old new : Placement) {gripper : Effect α}
    (hGripper : gripper.Within scope) :
    Shift scope ball (t.handEffects (old.relation ball) (new.relation ball) gripper) (some new) := by
  refine .change old new ?_
  split
  · exact List.forall_mem_singleton.mpr hGripper
  · exact List.forall_mem_nil _

/-- A travel that arrives puts the robot into the room; one that does not leaves it where it is. -/
theorem travel_shift {scope : Scope} (hMover : scope.mover? = some robot)
    (h : t.travel w robot start goal resume = .ok effects) :
    Shift scope robot effects
      (if (t.route w robot start goal resume).arrives then some (.isAt goal) else none) := by
  obtain ⟨-, -, -, rfl⟩ := travel_eq_ok h
  have hDrained : ∀ effect ∈ drainEffects robot (t.route w robot start goal resume), effect.Within scope := by
    unfold drainEffects
    split
    · exact List.forall_mem_singleton.mpr (Effect.setLevel_within hMover _ _)
    · exact List.forall_mem_nil _
  unfold outcomeEffects
  by_cases hArrives : (t.route w robot start goal resume).arrives = true
  · rw [if_pos hArrives, if_pos hArrives]
    refine .land (x := robot) (p := .isAt goal) (fun effect hEffect => Or.inl (hDrained effect hEffect)) ?_
    split
    · exact List.forall_mem_singleton.mpr (Effect.setLevel_within hMover _ _)
    · exact List.forall_mem_nil _
  · rw [if_neg hArrives, if_neg hArrives]
    exact .stay (List.forall_mem_append.mpr
      ⟨hDrained, List.forall_mem_singleton.mpr (Effect.setLevel_within hMover _ _)⟩)

/-- Where an accepted action puts its subject, if it does not leave it where it is. -/
def landing? (t : Table α) (w : World α) : Action → Option Placement
  | .move _ _ goal => some (.isAt goal)
  | .travel robot start goal resume => if (t.route w robot start goal resume).arrives then some (.isAt goal) else none
  | .pick _ _ robot => some (.carriedBy robot)
  | .drop _ room _ => some (.isAt room)
  | .startCharge _ | .stopCharge _ => none

/-- Every accepted action puts its subject where it says, and for the rest changes levels of its robot and, where it
handles a ball, the gripper. -/
theorem shift_of_effects {scope : Scope} {clock : α} {action : Action} (hMover : scope.mover? = some action.robot)
    (hGripper : action.handles = true → ⟨free, [action.robot]⟩ ∈ scope.facts)
    (h : t.effects w clock action = .ok effects) : Shift scope action.subject effects (t.landing? w action) := by
  cases action with
  | move robot start goal => exact move_shift h
  | travel robot start goal resume => exact travel_shift hMover h
  | pick ball room robot =>
    obtain ⟨-, -, -, rfl⟩ := pick_eq_ok h
    exact hand_shift (.isAt room) (.carriedBy robot) (hGripper rfl)
  | drop ball room robot =>
    obtain ⟨-, -, rfl⟩ := drop_eq_ok h
    exact hand_shift (.carriedBy robot) (.isAt room) (hGripper rfl)
  | startCharge robot =>
    rw [startCharge_effects h]
    exact .stay (List.forall_mem_nil _)
  | stopCharge robot =>
    obtain ⟨-, rfl⟩ := stopCharge_eq_ok h
    refine .stay ?_
    unfold chargeEffects
    split
    · exact List.forall_mem_singleton.mpr (Effect.setLevel_within hMover _ _)
    · exact List.forall_mem_nil _

/-- An accepted action has found its subject where it looks for it. -/
theorem holds_origin {clock : α} {action : Action} (h : t.effects w clock action = .ok effects) {origin : Placement}
    (hOrigin : action.origin? = some origin) : w.holds (origin.relation action.subject) = true := by
  cases action with
  | move robot start goal =>
    cases hOrigin
    exact (move_eq_ok h).1
  | travel robot start goal resume =>
    cases hOrigin
    exact (travel_eq_ok h).2.1
  | pick ball room robot =>
    cases hOrigin
    exact (pick_eq_ok h).2.1
  | drop ball room robot =>
    cases hOrigin
    exact (drop_eq_ok h).2.1
  | startCharge | stopCharge => cases hOrigin

/-- After an accepted action its subject is where the action puts it, and everyone else is where they were. -/
theorem holds_of_effects_iff {next : World α} {clock : α} {action : Action} (hSound : w.Sound)
    (hEffects : t.effects w clock action = .ok effects) (hApply : w.applyEffects effects = .ok next) (entity : EntityId)
    (p : Placement) :
    next.holds (p.relation entity) = true ↔
      (entity = action.subject ∧ t.landing? w action = some p) ∨
        ((entity = action.subject → t.landing? w action = none) ∧ w.holds (p.relation entity) = true) := by
  have hShift : Shift ⟨some action.robot, [⟨free, [action.robot]⟩]⟩ action.subject effects (t.landing? w action) :=
    shift_of_effects rfl (fun _ => List.mem_singleton_self _) hEffects
  exact World.holds_of_shift_iff hSound hShift hApply entity p

/-- After an accepted travel the robot is in the room it travels to iff the route arrives, or it was there before. -/
theorem holds_goal_iff {next : World α} (hSound : w.Sound) (h : t.travel w robot start goal resume = .ok effects)
    (hApply : w.applyEffects effects = .ok next) :
    next.holds ⟨.isAt, robot, goal⟩ = true ↔ (t.route w robot start goal resume).arrives = true ∨ start = goal := by
  have hShift : Shift ⟨some robot, []⟩ robot effects _ := travel_shift rfl h
  have hStart : w.holds ⟨.isAt, robot, start⟩ = true := (travel_eq_ok h).2.1
  obtain ⟨-, staged, hStaged, -, rfl⟩ := World.applyEffects_eq_ok_iff.mp hApply
  by_cases hArrives : (t.route w robot start goal resume).arrives = true
  · rw [if_pos hArrives] at hShift
    exact iff_of_true (decide_eq_true (hShift.lands hStaged).1) (Or.inl hArrives)
  · rw [if_neg hArrives] at hShift
    -- the robot is still in the one room where it was
    have hStill : World.holds { w with state := staged } ⟨.isAt, robot, goal⟩ = w.holds ⟨.isAt, robot, goal⟩ := by
      simp only [World.holds, hShift.stays hStaged]
    rw [hStill, or_iff_right hArrives]
    constructor
    · intro hGoal
      rw [← World.related?_eq_some_iff hSound rfl] at hStart hGoal
      exact Option.some.inj (hStart.symm.trans hGoal)
    · rintro rfl
      exact hStart

-- ---------------------------------------------------------------------------
-- Levels
-- ---------------------------------------------------------------------------

omit [Scalar α] in
theorem fluent_of_drainEffects {route : Route α} {effect : Effect α} {fluent : Fluent}
    (h : effect ∈ drainEffects robot route) (hFluent : effect.fluent? = some fluent) :
    fluent = ⟨.battery, [robot]⟩ := by
  unfold drainEffects at h
  split at h
  · obtain rfl := List.mem_singleton.mp h
    cases hFluent
    rfl
  · cases h

theorem fluent_of_outcomeEffects {route : Route α} {effect : Effect α} {fluent : Fluent}
    (h : effect ∈ outcomeEffects w robot goal route) (hFluent : effect.fluent? = some fluent) :
    fluent = ⟨routeRemaining, [robot]⟩ := by
  unfold outcomeEffects at h
  split at h
  · rcases List.mem_cons.mp h with rfl | hLeft
    · cases hFluent
    · split at hLeft
      · obtain rfl := List.mem_singleton.mp hLeft
        cases hFluent
        rfl
      · cases hLeft
  · obtain rfl := List.mem_singleton.mp h
    cases hFluent
    rfl

/-- A route leaves nothing in the battery only where there is none. -/
theorem level?_of_batteryAfter (h : (t.route w robot start goal resume).batteryAfter = none) :
    w.level? robot .battery = none := by
  revert h
  unfold route
  dsimp only
  split
  · exact fun _ => by assumption
  · split <;> exact nofun

/-- After an accepted travel the battery has what the route leaves in it. -/
theorem battery_of_travel {next : World α} (h : t.travel w robot start goal resume = .ok effects)
    (hApply : w.applyEffects effects = .ok next) :
    next.level? robot .battery = (t.route w robot start goal resume).batteryAfter := by
  obtain ⟨-, -, -, rfl⟩ := travel_eq_ok h
  obtain ⟨-, staged, hStaged, -, rfl⟩ := World.applyEffects_eq_ok_iff.mp hApply
  rw [drainEffects] at hStaged
  cases hAfter : (t.route w robot start goal resume).batteryAfter with
  | some battery =>
    rw [hAfter] at hStaged
    refine State.fluent_of_assigned ?_ hStaged (Or.inr ⟨_, List.mem_cons_self .., rfl⟩)
    intro effect hEffect hFluent
    rcases List.mem_cons.mp hEffect with rfl | hOutcome
    · rfl
    · cases fluent_of_outcomeEffects hOutcome hFluent
  | none =>
    rw [hAfter] at hStaged
    refine (State.fluent_of_spared ?_ hStaged).trans (level?_of_batteryAfter hAfter)
    intro effect hEffect hFluent
    cases fluent_of_outcomeEffects hEffect hFluent

/-- A travel that arrives leaves nothing of its way, where the robot notes what is left at all. -/
theorem left_of_arrival {next : World α} (h : t.travel w robot start goal resume = .ok effects)
    (hApply : w.applyEffects effects = .ok next) (hArrives : (t.route w robot start goal resume).arrives = true) :
    next.level? robot routeRemaining = (w.level? robot routeRemaining).map fun _ => 0 := by
  obtain ⟨-, -, -, rfl⟩ := travel_eq_ok h
  rw [outcomeEffects, if_pos hArrives] at hApply
  cases hLevel : w.level? robot routeRemaining with
  | some level =>
    rw [hLevel, Option.isSome_some, if_pos rfl, List.append_cons] at hApply
    exact World.level?_of_getLast? hApply List.getLast?_concat
  | none =>
    rw [hLevel, Option.isSome_none, if_neg Bool.false_ne_true] at hApply
    obtain ⟨-, staged, hStaged, -, rfl⟩ := World.applyEffects_eq_ok_iff.mp hApply
    refine (State.fluent_of_spared ?_ hStaged).trans hLevel
    intro effect hEffect hFluent
    rcases List.mem_append.mp hEffect with hDrain | hOutcome
    · cases fluent_of_drainEffects hDrain hFluent
    · obtain rfl := List.mem_singleton.mp hOutcome
      cases hFluent

/-- An accepted travel that does not arrive notes what is left of its way. -/
theorem left_of_short {next : World α} (h : t.travel w robot start goal resume = .ok effects)
    (hApply : w.applyEffects effects = .ok next) (hShort : ¬ (t.route w robot start goal resume).arrives = true) :
    next.level? robot routeRemaining =
      some ((t.route w robot start goal resume).length - (t.route w robot start goal resume).travelled) := by
  obtain ⟨-, -, -, rfl⟩ := travel_eq_ok h
  rw [outcomeEffects, if_neg hShort] at hApply
  exact World.level?_of_getLast? hApply List.getLast?_concat

/-- After an accepted end of charging the battery, where there is one, has what charging gives. -/
theorem battery_of_stopCharge {next : World α} {clock : α} (h : t.stopCharge w clock robot = .ok effects)
    (hApply : w.applyEffects effects = .ok next) :
    next.level? robot .battery =
      (w.level? robot .battery).map fun level => t.chargedLevel level (t.chargeElapsed robot clock) := by
  obtain ⟨-, rfl⟩ := stopCharge_eq_ok h
  rw [chargeEffects] at hApply
  cases hLevel : w.level? robot .battery with
  | some level =>
    rw [hLevel] at hApply
    exact World.level?_of_getLast? hApply rfl
  | none =>
    rw [hLevel] at hApply
    obtain ⟨-, staged, hStaged, -, rfl⟩ := World.applyEffects_eq_ok_iff.mp hApply
    cases hStaged
    exact hLevel

omit [Scalar α] in
theorem fluent?_of_handEffects {old new : Relation} {gripper effect : Effect α} (hGripper : gripper.fluent? = none)
    (h : effect ∈ t.handEffects old new gripper) : effect.fluent? = none := by
  unfold handEffects at h
  rcases List.mem_append.mp h with hPlaced | hHand
  · rcases List.mem_pair.mp hPlaced with rfl | rfl <;> rfl
  · split at hHand
    · rw [List.mem_singleton.mp hHand, hGripper]
    · cases hHand

/-- Only a travel and the end of charging change levels: the battery of their robot, and what is left of its way. -/
theorem fluent_of_effects {clock : α} {action : Action} (h : t.effects w clock action = .ok effects)
    {effect : Effect α} (hEffect : effect ∈ effects) {fluent : Fluent} (hFluent : effect.fluent? = some fluent) :
    (∃ robot start goal resume, action = .travel robot start goal resume ∧
      (fluent = ⟨.battery, [robot]⟩ ∨ fluent = ⟨routeRemaining, [robot]⟩)) ∨
      ∃ robot, action = .stopCharge robot ∧ fluent = ⟨.battery, [robot]⟩ := by
  cases action with
  | travel robot start goal resume =>
    obtain ⟨-, -, -, rfl⟩ := travel_eq_ok h
    refine Or.inl ⟨robot, start, goal, resume, rfl, ?_⟩
    rcases List.mem_append.mp hEffect with hDrain | hOutcome
    · exact Or.inl (fluent_of_drainEffects hDrain hFluent)
    · exact Or.inr (fluent_of_outcomeEffects hOutcome hFluent)
  | stopCharge robot =>
    obtain ⟨-, rfl⟩ := stopCharge_eq_ok h
    refine Or.inr ⟨robot, rfl, ?_⟩
    unfold chargeEffects at hEffect
    split at hEffect
    · obtain rfl := List.mem_singleton.mp hEffect
      cases hFluent
      rfl
    · cases hEffect
  | move robot start goal =>
    obtain ⟨-, -, -, rfl⟩ := move_eq_ok h
    obtain rfl := List.mem_singleton.mp hEffect
    cases hFluent
  | pick ball room robot =>
    obtain ⟨-, -, -, rfl⟩ := pick_eq_ok h
    rw [fluent?_of_handEffects rfl hEffect] at hFluent
    cases hFluent
  | drop ball room robot =>
    obtain ⟨-, -, rfl⟩ := drop_eq_ok h
    rw [fluent?_of_handEffects rfl hEffect] at hFluent
    cases hFluent
  | startCharge robot =>
    rw [startCharge_effects h] at hEffect
    cases hEffect

end Robot.Table

end PlanReplay

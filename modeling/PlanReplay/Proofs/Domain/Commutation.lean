import PlanReplay.Proofs.Logistics.Run
import PlanReplay.Proofs.Robot.Run
import PlanReplay.Proofs.World.Locality

/-!
# Actions that commute

An action of the logistics or the robot domain reads and checks what is about the entities it names, besides what no
action changes. What it changes is about its movers: its package or ball, and its vehicle or robot. So two actions of
which neither names a mover of the other do not notice each other, at whatever time they are dispatched.

* `DomainAction.movers`, `DomainAction.arguments` — whom an action may change, and whom it names.
* `Logistics.Table.effects_eq`, `Robot.Table.effects_eq` — an action has the same effects in worlds that differ in what
  is about others.
* `Simulation.SameBut.dispatch_alike` — and so it has the same outcome.
* `Simulation.sameBut_perform` — an action makes a difference in what is about its movers.
* `Simulation.dispatches_commute` — the order of two actions makes no difference.
-/

namespace PlanReplay

variable {α : Type}

-- ---------------------------------------------------------------------------
-- Vehicles
-- ---------------------------------------------------------------------------

namespace Logistics

/-- Whom an action may move, and whose levels it may change: its package and its vehicle. -/
def Action.movers (action : Action) : List EntityId := [action.subject, action.vehicle]

theorem Action.mem_referenced_of_mem_movers {action : Action} {x : EntityId} (h : x ∈ action.movers) :
    x ∈ action.referenced := by
  rcases List.mem_pair.mp h with rfl | rfl <;> cases action <;> simp [referenced, subject, vehicle]

/-- The city of a place is told by facts that are about two. -/
theorem cityOf?_eq {others : List EntityId} {w w' : World α} (h : w.SameBut others w') (place : EntityId) :
    cityOf? w' place = cityOf? w place := by
  unfold cityOf?
  refine findSome?_eq_of_filter_eq ?_ h.facts_eq
  intro fact hOne
  obtain ⟨x, hArgs⟩ := List.length_eq_one_iff.mp (of_not_not (of_decide_eq_false hOne))
  rw [hArgs]

namespace Table

variable [Scalar α] {t : Table α} {others : List EntityId} {w w' : World α} {action : Action}

/-- An action reads what is about the entities it names, and which places are in which cities. -/
theorem effects_eq (h : w.SameBut others w') (hClear : ∀ id ∈ action.referenced, id ∉ others) :
    t.effects w' action = t.effects w action := by
  cases action with
  | load package vehicle location =>
    simp only [Action.referenced, List.forall_mem_cons] at hClear
    obtain ⟨hPackage, hVehicle, hLocation, -⟩ := hClear
    simp only [effects, load, h.holds_eq (r := ⟨.isAt, package, location⟩) hPackage hLocation,
      h.holds_eq (r := ⟨.isAt, vehicle, location⟩) hVehicle hLocation]
  | unload package vehicle location =>
    simp only [Action.referenced, List.forall_mem_cons] at hClear
    obtain ⟨hPackage, hVehicle, hLocation, -⟩ := hClear
    simp only [effects, unload, h.holds_eq (r := ⟨.isIn, package, vehicle⟩) hPackage hVehicle,
      h.holds_eq (r := ⟨.isAt, vehicle, location⟩) hVehicle hLocation]
  | travel mode vehicle start goal extra crossesCities =>
    simp only [Action.referenced, List.forall_mem_cons] at hClear
    obtain ⟨hVehicle, hStart, -, -⟩ := hClear
    simp only [effects, travel, cityBorder?, h.holds_eq (r := ⟨.isAt, vehicle, start⟩) hVehicle hStart,
      cityOf?_eq h, h.level?_eq hVehicle]
  | refuel vehicle place =>
    simp only [Action.referenced, List.forall_mem_cons] at hClear
    obtain ⟨hVehicle, hPlace⟩ := hClear
    cases place with
    | none => rfl
    | some place =>
      have hHolds := h.holds_eq (r := ⟨.isAt, vehicle, place⟩) hVehicle (hPlace place (by simp))
      simp only [effects, refuel, Option.filter_some, hHolds]

/-- What an action looks like is read off the same. -/
theorem transition_eq (h : w.SameBut others w') (hClear : ∀ id ∈ action.referenced, id ∉ others) (a : TimedAction α) :
    t.transition w' a action = t.transition w a action := by
  cases action with
  | load package vehicle location =>
    have hPackage : package ∉ others := hClear package (by simp [Action.referenced])
    simp only [transition, h.related?_eq .isAt nofun hPackage]
  | refuel vehicle place =>
    have hVehicle : vehicle ∉ others := hClear vehicle (by simp [Action.referenced])
    simp only [transition, h.level?_eq hVehicle]
  | unload | travel => rfl

/-- The effects of an action name the entities that the action names. -/
theorem touched_of_effects {effects : List (Effect α)} (h : t.effects w action = .ok effects) :
    ∀ effect ∈ effects, ∀ id ∈ effect.touched, id ∈ action.referenced := by
  cases action with
  | load package vehicle location =>
    obtain ⟨-, -, rfl⟩ := load_eq_ok h
    simp [Effect.touched, Action.referenced]
  | unload package vehicle location =>
    obtain ⟨-, -, rfl⟩ := unload_eq_ok h
    simp [Effect.touched, Action.referenced]
  | travel mode vehicle start goal extra crossesCities =>
    obtain ⟨-, -, rfl⟩ := travel_eq_ok h
    unfold burnEffects
    split <;> simp [Effect.touched, Action.referenced]
  | refuel vehicle place =>
    obtain rfl := refuel_eq_ok h
    simp [Effect.touched, Effect.setLevel, Action.referenced]

/-- An action makes a difference in what is about its movers. -/
theorem sameBut_of_effects {effects : List (Effect α)} {next : World α} (hEffects : t.effects w action = .ok effects)
    (hApply : w.applyEffects effects = .ok next) : w.SameBut action.movers next := by
  obtain ⟨-, staged, hStaged, -, rfl⟩ := World.applyEffects_eq_ok_iff.mp hApply
  have hShift : Shift ⟨some action.vehicle, []⟩ action.subject effects action.landing? := shift_of_effects rfl hEffects
  refine ⟨rfl, .of_frame (hShift.frame hStaged) (by simp [Action.movers]) ?_ (List.forall_mem_nil _)⟩
  rintro mover ⟨⟩
  simp [Action.movers]

end Table

end Logistics

-- ---------------------------------------------------------------------------
-- Robots
-- ---------------------------------------------------------------------------

namespace Robot

/-- Whom an action may move, and whose levels and phase it may change: its ball and its robot. -/
def Action.movers (action : Action) : List EntityId := [action.subject, action.robot]

theorem Action.mem_referenced_of_mem_movers {action : Action} {x : EntityId} (h : x ∈ action.movers) :
    x ∈ action.referenced := by
  rcases List.mem_pair.mp h with rfl | rfl <;> cases action <;> simp [referenced, subject, robot]

namespace Table

/-- The tables are the same but for the statuses of some of `others`. -/
structure SameBut (others : List EntityId) (t t' : Table α) : Prop where
  rest : t' = { t with robots := t'.robots }
  robots : ∀ robot, robot ∉ others → t'.robots.get? robot = t.robots.get? robot

namespace SameBut

variable {others : List EntityId} {t t' : Table α}

theorem refl (t : Table α) : SameBut others t t := ⟨rfl, fun _ _ => rfl⟩

theorem symm (h : SameBut others t t') : SameBut others t' t := by
  refine ⟨?_, fun robot hRobot => (h.robots robot hRobot).symm⟩
  rw [h.rest]

theorem trans {t'' : Table α} (h : SameBut others t t') (h' : SameBut others t' t'') : SameBut others t t'' := by
  refine ⟨?_, fun robot hRobot => (h'.robots robot hRobot).trans (h.robots robot hRobot)⟩
  rw [h'.rest, h.rest]

theorem eq {first second : List EntityId} (hDisjoint : ∀ x ∈ first, x ∉ second) (h : SameBut first t t')
    (h' : SameBut second t t') : t' = t := by
  have hRobots : t'.robots = t.robots := by
    refine OrderedMap.ext fun robot => ?_
    by_cases hFirst : robot ∈ first
    · exact h'.robots robot (hDisjoint robot hFirst)
    · exact h.robots robot hFirst
  rw [h.rest, hRobots]

theorem status_eq (h : SameBut others t t') {robot : EntityId} (hRobot : robot ∉ others) :
    t'.status robot = t.status robot := by
  rw [status, status, h.robots robot hRobot]

/-- Whoever enters a phase alike. -/
theorem enter_alike (h : SameBut others t t') {robot : EntityId} (hRobot : robot ∉ others) (phase : RobotPhase)
    (update : Status α → Status α) :
    SameBut others (t.enter robot phase update).1 (t'.enter robot phase update).1 ∧
      (t'.enter robot phase update).2 = (t.enter robot phase update).2 := by
  unfold enter
  rw [h.status_eq hRobot]
  refine ⟨⟨?_, ?_⟩, rfl⟩
  · rw [h.rest]
  · intro other hOther
    dsimp only
    rw [OrderedMap.get?_insert, OrderedMap.get?_insert, h.robots other hOther]

end SameBut

/-- To enter a phase makes a difference for the robot that does. -/
theorem sameBut_enter {others : List EntityId} (t : Table α) {robot : EntityId} (hRobot : robot ∈ others)
    (phase : RobotPhase) (update : Status α → Status α) : t.SameBut others (t.enter robot phase update).1 := by
  refine ⟨rfl, fun other hOther => OrderedMap.get?_insert_ne _ _ ?_⟩
  rintro rfl
  exact hOther hRobot

/-- An accepted action makes a difference for its robot. -/
theorem sameBut_commit (t : Table α) (after : World α) (clock : α) (action : Action) :
    t.SameBut action.movers (t.commit after clock action).1 := by
  have hRobot : action.robot ∈ action.movers := by simp [Action.movers]
  cases action with
  | travel | startCharge | stopCharge => exact sameBut_enter t hRobot _ _
  | move | pick | drop => exact .refl t

variable [Scalar α] {others : List EntityId} {t t' : Table α} {w w' : World α} {action : Action}

omit [Scalar α] in
theorem disconnected?_eq (h : w.SameBut others w') {start goal : EntityId} (hStart : start ∉ others)
    (hGoal : goal ∉ others) : disconnected? w' start goal = disconnected? w start goal := by
  have hConnections : w'.hasRelations .connected = w.hasRelations .connected := by
    refine h.hasRelations_eq fun r hKind x => ?_
    rw [Relation.places, hKind]
  simp only [disconnected?, hConnections, h.holds_eq (r := ⟨.connected, start, goal⟩) hStart hGoal,
    h.holds_eq (r := ⟨.connected, goal, start⟩) hGoal hStart]

omit [Scalar α] in
theorem awayFrom?_eq (h : w.SameBut others w') {entity room : EntityId} (hEntity : entity ∉ others)
    (hRoom : room ∉ others) : awayFrom? w' entity room = awayFrom? w entity room := by
  simp only [awayFrom?, h.holds_eq (r := ⟨.isAt, entity, room⟩) hEntity hRoom]

theorem depleted?_eq (hTable : t.SameBut others t') (h : w.SameBut others w') {robot : EntityId}
    (hRobot : robot ∉ others) : t'.depleted? w' robot = t.depleted? w robot := by
  rw [hTable.rest]
  simp only [depleted?, h.level?_eq hRobot]

theorem route_eq (hTable : t.SameBut others t') (h : w.SameBut others w') {robot start goal : EntityId} (resume : Bool)
    (hRobot : robot ∉ others) : t'.route w' robot start goal resume = t.route w robot start goal resume := by
  rw [hTable.rest]
  simp only [route, routeLength, h.level?_eq hRobot, h.fluent?_pair_eq]
  rfl

theorem chargedLevel_eq (hTable : t.SameBut others t') {robot : EntityId} (hRobot : robot ∉ others) (level clock : α) :
    t'.chargedLevel level (t'.chargeElapsed robot clock) = t.chargedLevel level (t.chargeElapsed robot clock) := by
  have hParams : t'.params = t.params := by rw [hTable.rest]
  simp only [chargedLevel, chargeElapsed, hParams, hTable.status_eq hRobot]

/-- An action reads what is about the entities it names, and which rooms are connected and how far apart. -/
theorem effects_eq (hTable : t.SameBut others t') (h : w.SameBut others w')
    (hClear : ∀ id ∈ action.referenced, id ∉ others) (clock : α) :
    t'.effects w' clock action = t.effects w clock action := by
  have hGripper : t'.usesGripper = t.usesGripper := by rw [hTable.rest]
  cases action with
  | move robot start goal =>
    simp only [Action.referenced, List.forall_mem_cons] at hClear
    obtain ⟨hRobot, hStart, hGoal, -⟩ := hClear
    simp only [effects, move, awayFrom?_eq h hRobot hStart, disconnected?_eq h hStart hGoal,
      depleted?_eq hTable h hRobot]
  | travel robot start goal resume =>
    simp only [Action.referenced, List.forall_mem_cons] at hClear
    obtain ⟨hRobot, hStart, -, -⟩ := hClear
    simp only [effects, travel, phase, hTable.status_eq hRobot, awayFrom?_eq h hRobot hStart,
      depleted?_eq hTable h hRobot, route_eq hTable h resume hRobot, h.level?_eq hRobot]
    rfl
  | pick ball room robot =>
    simp only [Action.referenced, List.forall_mem_cons] at hClear
    obtain ⟨hBall, hRoom, hRobot, -⟩ := hClear
    simp only [effects, pick, awayFrom?_eq h hRobot hRoom, awayFrom?_eq h hBall hRoom, hGripper,
      h.hasFact_eq hRobot]
  | drop ball room robot =>
    simp only [Action.referenced, List.forall_mem_cons] at hClear
    obtain ⟨hBall, hRoom, hRobot, -⟩ := hClear
    simp only [effects, drop, awayFrom?_eq h hRobot hRoom, hGripper,
      h.holds_eq (r := ⟨.carries, robot, ball⟩) hRobot hBall]
  | startCharge robot =>
    have hRobot : robot ∉ others := hClear robot (by simp [Action.referenced])
    simp only [effects, startCharge, phase, hTable.status_eq hRobot]
  | stopCharge robot =>
    have hRobot : robot ∉ others := hClear robot (by simp [Action.referenced])
    simp only [effects, stopCharge, phase, hTable.status_eq hRobot, h.level?_eq hRobot, chargedLevel_eq hTable hRobot]
    rfl

/-- What an action looks like is read off the same. -/
theorem transition_eq (hTable : t.SameBut others t') (h : w.SameBut others w')
    (hClear : ∀ id ∈ action.referenced, id ∉ others) (a : TimedAction α) (clock : α) :
    t'.transition w' a clock action = t.transition w a clock action := by
  have hParams : t'.params = t.params := by rw [hTable.rest]
  have hDuration : t'.defaultDuration = t.defaultDuration := by rw [hTable.rest]
  cases action with
  | move | pick | drop => simp only [transition, hDuration]
  | travel robot start goal resume =>
    have hRobot : robot ∉ others := hClear robot (by simp [Action.referenced])
    simp only [transition, route_eq hTable h resume hRobot, hParams]
  | startCharge robot =>
    have hRobot : robot ∉ others := hClear robot (by simp [Action.referenced])
    simp only [transition, h.level?_eq hRobot]
  | stopCharge robot =>
    have hRobot : robot ∉ others := hClear robot (by simp [Action.referenced])
    simp only [transition, h.level?_eq hRobot, hParams, chargedLevel_eq hTable hRobot]

omit [Scalar α] in
/-- An accepted action is committed alike. -/
theorem commit_congr (hTable : t.SameBut others t') (h : w.SameBut others w')
    (hClear : ∀ id ∈ action.referenced, id ∉ others) (clock : α) :
    (t.commit w clock action).1.SameBut others (t'.commit w' clock action).1 ∧
      (t'.commit w' clock action).2 = (t.commit w clock action).2 := by
  have hRobot : action.robot ∉ others := hClear _ (Action.mem_referenced_of_mem_movers (by simp [Action.movers]))
  cases action with
  | travel robot start goal resume =>
    have hGoal : goal ∉ others := hClear goal (by simp [Action.referenced])
    simp only [commit, h.holds_eq (r := ⟨.isAt, robot, goal⟩) hRobot hGoal]
    exact hTable.enter_alike hRobot _ _
  | startCharge | stopCharge => exact hTable.enter_alike hRobot _ _
  | move | pick | drop => exact ⟨hTable, rfl⟩

/-- The effects of an action name the entities that the action names. -/
theorem touched_of_effects {clock : α} {effects : List (Effect α)} (h : t.effects w clock action = .ok effects) :
    ∀ effect ∈ effects, ∀ id ∈ effect.touched, id ∈ action.referenced := by
  cases action with
  | move robot start goal =>
    obtain ⟨-, -, -, rfl⟩ := move_eq_ok h
    simp [Effect.touched, Action.referenced]
  | travel robot start goal resume =>
    obtain ⟨-, -, -, rfl⟩ := travel_eq_ok h
    unfold drainEffects outcomeEffects
    split <;> split <;> (try split) <;> simp [Effect.touched, Effect.setLevel, Action.referenced]
  | pick ball room robot =>
    obtain ⟨-, -, -, rfl⟩ := pick_eq_ok h
    unfold handEffects
    split <;> simp [Effect.touched, Action.referenced]
  | drop ball room robot =>
    obtain ⟨-, -, rfl⟩ := drop_eq_ok h
    unfold handEffects
    split <;> simp [Effect.touched, Action.referenced]
  | startCharge robot =>
    rw [startCharge_effects h]
    exact List.forall_mem_nil _
  | stopCharge robot =>
    obtain ⟨-, rfl⟩ := stopCharge_eq_ok h
    unfold chargeEffects
    split <;> simp [Effect.touched, Effect.setLevel, Action.referenced]

/-- An action makes a difference in what is about its movers. -/
theorem sameBut_of_effects {clock : α} {effects : List (Effect α)} {next : World α}
    (hEffects : t.effects w clock action = .ok effects) (hApply : w.applyEffects effects = .ok next) :
    w.SameBut action.movers next := by
  obtain ⟨-, staged, hStaged, -, rfl⟩ := World.applyEffects_eq_ok_iff.mp hApply
  have hShift : Shift ⟨some action.robot, [⟨free, [action.robot]⟩]⟩ action.subject effects (t.landing? w action) :=
    shift_of_effects rfl (fun _ => List.mem_singleton_self _) hEffects
  refine ⟨rfl, .of_frame (hShift.frame hStaged) (by simp [Action.movers]) ?_ ?_⟩
  · rintro mover ⟨⟩
    simp [Action.movers]
  · intro fact hFact
    obtain rfl := List.mem_singleton.mp hFact
    exact ⟨action.robot, by simp [Action.movers], rfl⟩

end Table

end Robot

-- ---------------------------------------------------------------------------
-- Actions of any domain
-- ---------------------------------------------------------------------------

namespace DomainAction

/-- Whom an action may change. An action of an elevator is not looked at apart, and counts all that it names. -/
def movers : DomainAction → List EntityId
  | .elevator action => action.referenced
  | .logistics action => action.movers
  | .robot action => action.movers
  | .wait => []

/-- Whom an action names. -/
def arguments : DomainAction → List EntityId
  | .elevator action => action.referenced
  | .logistics action => action.referenced
  | .robot action => action.referenced
  | .wait => []

theorem mem_arguments_of_mem_movers {action : DomainAction} {x : EntityId} (h : x ∈ action.movers) :
    x ∈ action.arguments := by
  cases action with
  | elevator action => exact h
  | logistics action => exact Logistics.Action.mem_referenced_of_mem_movers h
  | robot action => exact Robot.Action.mem_referenced_of_mem_movers h
  | wait => cases h

end DomainAction

/-- The tables are the same but for the statuses of robots among `others`. -/
def ActionTable.SameBut (others : List EntityId) : ActionTable α → ActionTable α → Prop
  | .elevator t, .elevator t' => t' = t
  | .logistics t, .logistics t' => t' = t
  | .robot t, .robot t' => t.SameBut others t'
  | _, _ => False

namespace ActionTable.SameBut

variable {others : List EntityId} {t t' : ActionTable α}

theorem refl (t : ActionTable α) : SameBut others t t := by
  cases t with
  | elevator table | logistics table => exact rfl
  | robot table => exact Robot.Table.SameBut.refl table

theorem symm (h : SameBut others t t') : SameBut others t' t := by
  cases t <;> cases t' <;> first | exact h.elim | exact Eq.symm h | exact Robot.Table.SameBut.symm h

theorem trans {t'' : ActionTable α} (h : SameBut others t t') (h' : SameBut others t' t'') : SameBut others t t'' := by
  cases t <;> cases t' <;> first | exact h.elim | skip
  all_goals cases t'' <;> first | exact h'.elim | exact Eq.trans h' h | exact Robot.Table.SameBut.trans h h'

theorem eq {first second : List EntityId} (hDisjoint : ∀ x ∈ first, x ∉ second) (h : SameBut first t t')
    (h' : SameBut second t t') : t' = t := by
  cases t <;> cases t' <;> first
    | exact h.elim
    | exact congrArg _ (Robot.Table.SameBut.eq hDisjoint h h')
    | exact congrArg _ h

end ActionTable.SameBut

namespace Simulation

/-- The tables and the worlds are the same but for what is about one of `others`. -/
structure SameBut (others : List EntityId) (s s' : Simulation α) : Prop where
  table : s.table.SameBut others s'.table
  world : s.world.SameBut others s'.world

namespace SameBut

variable {others : List EntityId} {s s' : Simulation α}

theorem refl (s : Simulation α) : SameBut others s s := ⟨.refl s.table, .refl s.world⟩

theorem symm (h : SameBut others s s') : SameBut others s' s := ⟨h.table.symm, h.world.symm⟩

theorem trans {s'' : Simulation α} (h : SameBut others s s') (h' : SameBut others s' s'') : SameBut others s s'' :=
  ⟨h.table.trans h'.table, h.world.trans h'.world⟩

theorem eq {first second : List EntityId} (hDisjoint : ∀ x ∈ first, x ∉ second) (h : SameBut first s s')
    (h' : SameBut second s s') : s' = s := by
  have hTable := h.table.eq hDisjoint h'.table
  have hWorld := h.world.eq hDisjoint h'.world
  cases s
  cases s'
  congr

end SameBut

-- ---------------------------------------------------------------------------
-- Dispatches
-- ---------------------------------------------------------------------------

variable [Scalar α] {others : List EntityId} {s s' : Simulation α}

/-- What comes of a dispatch: the transition and the changes of phases, or why there are none. -/
def outcome (s : Simulation α) (action : DomainAction) (timed : TimedAction α) (clock : α) :
    Except (Failure (Rejection α)) (Applied α) :=
  (s.table.dispatch action timed s.world clock).map fun (_, _, applied) => applied

/-- An action that names none of the others is accepted or rejected alike, and makes no further difference. -/
theorem SameBut.dispatch_alike (h : SameBut others s s') (hDomain : s.table.domain ≠ .elevator) {action : DomainAction}
    (hClear : ∀ id ∈ action.arguments, id ∉ others) (timed : TimedAction α) (clock : α) :
    Alike (fun (r r' : ActionTable α × World α × Applied α) =>
        SameBut others ⟨r.1, r.2.1⟩ ⟨r'.1, r'.2.1⟩ ∧ r'.2.2 = r.2.2)
      (s.table.dispatch action timed s.world clock) (s'.table.dispatch action timed s'.world clock) := by
  obtain ⟨table, world⟩ := s
  obtain ⟨table', world'⟩ := s'
  obtain ⟨hTable, hWorld⟩ := h
  dsimp only at hTable hWorld hDomain ⊢
  cases table with
  | elevator t => exact absurd rfl hDomain
  | logistics t =>
    cases table' with
    | elevator | robot => exact hTable.elim
    | logistics t' =>
      obtain rfl : t' = t := hTable
      cases action with
      | wait => exact .ok ⟨⟨.refl _, hWorld⟩, rfl⟩
      | elevator | robot => exact .error _
      | logistics action =>
        have hAttempt := hWorld.attempt_alike action.referenced
          (congrArg refusing (Logistics.Table.effects_eq (t := t') hWorld hClear))
          fun batch hBatch effect hEffect id hId =>
            hClear id (Logistics.Table.touched_of_effects (refusing_eq_ok_iff.mp hBatch) effect hEffect id hId)
        unfold ActionTable.dispatch
        dsimp only
        generalize world.attempt action.referenced (refusing (t'.effects world action)) = outcome at hAttempt
        generalize world'.attempt action.referenced (refusing (t'.effects world' action)) = outcome' at hAttempt
        cases hAttempt with
        | error rejection => exact .error _
        | ok hNext =>
          refine .ok ⟨⟨.refl _, hNext⟩, ?_⟩
          rw [Logistics.Table.transition_eq hWorld hClear]
  | robot t =>
    cases table' with
    | elevator | logistics => exact hTable.elim
    | robot t' =>
      have hRobots : t.SameBut others t' := hTable
      cases action with
      | wait => exact .ok ⟨⟨hTable, hWorld⟩, rfl⟩
      | elevator | logistics => exact .error _
      | robot action =>
        have hAttempt := hWorld.attempt_alike action.referenced
          (congrArg refusing (Robot.Table.effects_eq hRobots hWorld hClear clock))
          fun batch hBatch effect hEffect id hId =>
            hClear id (Robot.Table.touched_of_effects (refusing_eq_ok_iff.mp hBatch) effect hEffect id hId)
        unfold ActionTable.dispatch
        dsimp only
        generalize world.attempt action.referenced (refusing (t.effects world clock action)) = outcome at hAttempt
        generalize world'.attempt action.referenced (refusing (t'.effects world' clock action)) = outcome' at hAttempt
        cases hAttempt with
        | error rejection => exact .error _
        | ok hNext =>
          obtain ⟨hCommitted, hChanges⟩ := Robot.Table.commit_congr hRobots hNext hClear clock
          refine .ok ⟨⟨hCommitted, hNext⟩, ?_⟩
          rw [hChanges, Robot.Table.transition_eq hRobots hWorld hClear]

/-- The same of calls. -/
theorem SameBut.perform (h : SameBut others s s') (hDomain : s.table.domain ≠ .elevator) {action : DomainAction}
    (hClear : ∀ id ∈ action.arguments, id ∉ others) (timed : TimedAction α) (clock : α) :
    SameBut others (s.perform (.dispatch action timed clock)) (s'.perform (.dispatch action timed clock)) ∧
      s'.outcome action timed clock = s.outcome action timed clock := by
  have hDispatch := h.dispatch_alike hDomain hClear timed clock
  unfold Simulation.perform outcome
  dsimp only
  generalize s.table.dispatch action timed s.world clock = result at hDispatch
  generalize s'.table.dispatch action timed s'.world clock = result' at hDispatch
  cases hDispatch with
  | error rejection => exact ⟨h, rfl⟩
  | ok hNext => exact ⟨hNext.1, congrArg Except.ok hNext.2⟩

/-- An action makes a difference in what is about its movers. -/
theorem sameBut_perform (hDomain : s.table.domain ≠ .elevator) (action : DomainAction) (timed : TimedAction α)
    (clock : α) : SameBut action.movers s (s.perform (.dispatch action timed clock)) := by
  obtain ⟨table, world⟩ := s
  unfold Simulation.perform
  dsimp only
  split
  · rename_i after next applied hDispatch
    cases table with
    | elevator t => exact absurd rfl hDomain
    | logistics t =>
      obtain ⟨rfl, ⟨-, rfl⟩ | ⟨act, effects, rfl, hEffects, hApply⟩⟩ := ActionTable.dispatch_logistics hDispatch
      · exact .refl _
      · exact ⟨.refl _, Logistics.Table.sameBut_of_effects hEffects hApply⟩
    | robot t =>
      rcases ActionTable.dispatch_robot_cases hDispatch with
        ⟨-, rfl, rfl⟩ | ⟨act, effects, rfl, hEffects, hApply, rfl, -⟩
      · exact .refl _
      · exact ⟨Robot.Table.sameBut_commit t next clock act, Robot.Table.sameBut_of_effects hEffects hApply⟩
  · exact .refl _

omit [Scalar α] in
theorem SameBut.domain_eq (h : SameBut others s s') : s'.table.domain = s.table.domain := by
  have hTable := h.table
  cases hFirst : s.table <;> cases hSecond : s'.table <;> rw [hFirst, hSecond] at hTable <;>
    first | exact hTable.elim | rfl

/--
**Actions on disjoint movers commute.** Take a table of the logistics or the robot domain and any world, and two actions
such that no mover of one is among the arguments of the other. In either order, and at whatever times they are
dispatched, each of them has the same outcome, the same transition and changes of phases or the same rejection, as if
it were dispatched alone; and both orders lead to the same table, with the same phases of robots, and the same world.
-/
theorem dispatches_commute (hDomain : s.table.domain ≠ .elevator) {a b : DomainAction}
    (hFirst : ∀ x ∈ a.movers, x ∉ b.arguments) (hSecond : ∀ x ∈ b.movers, x ∉ a.arguments) (p q : TimedAction α)
    (c d : α) :
    (s.perform (.dispatch a p c)).outcome b q d = s.outcome b q d ∧
      (s.perform (.dispatch b q d)).outcome a p c = s.outcome a p c ∧
      (s.perform (.dispatch a p c)).perform (.dispatch b q d) =
        (s.perform (.dispatch b q d)).perform (.dispatch a p c) := by
  have hA := sameBut_perform hDomain a p c
  have hB := sameBut_perform hDomain b q d
  -- each action after the other one is as far from it alone as the other one leads
  obtain ⟨hAfterA, hOutcomeB⟩ := hA.perform hDomain (fun x hx hMover => hFirst x hMover hx) q d
  obtain ⟨hAfterB, hOutcomeA⟩ := hB.perform hDomain (fun x hx hMover => hSecond x hMover hx) p c
  refine ⟨hOutcomeB, hOutcomeA, ?_⟩
  have hDomainA : (s.perform (.dispatch a p c)).table.domain ≠ .elevator := by rwa [hA.domain_eq]
  have hDomainB : (s.perform (.dispatch b q d)).table.domain ≠ .elevator := by rwa [hB.domain_eq]
  have hLastA := sameBut_perform hDomainB a p c
  have hLastB := sameBut_perform hDomainA b q d
  have hDisjoint : ∀ x ∈ a.movers, x ∉ b.movers :=
    fun x hx hMover => hFirst x hx (DomainAction.mem_arguments_of_mem_movers hMover)
  exact SameBut.eq hDisjoint (hLastA.symm.trans hAfterA) (hAfterB.symm.trans hLastB)

/-- One robot takes up a ball in a room, and another one sets off from it. -/
theorem dispatches_commute_of_shared_room :
    let sweep : Problem := ⟨"sweep", "robot",
      [⟨"r1", "robot"⟩, ⟨"r2", "robot"⟩, ⟨"b", "ball"⟩, ⟨"hall", "room"⟩, ⟨"yard", "room"⟩],
      [⟨"at-robby", ["r1", "hall"]⟩, ⟨"at-robby", ["r2", "hall"]⟩, ⟨"at", ["b", "hall"]⟩, ⟨"free", ["r1"]⟩], [], []⟩
    let a : DomainAction := .robot (.pick ⟨"b"⟩ ⟨"hall"⟩ ⟨"r1"⟩)
    let b : DomainAction := .robot (.travel ⟨"r2"⟩ ⟨"hall"⟩ ⟨"yard"⟩ false)
    let p : TimedAction Float := ⟨0, 0, "pick", a.arguments, 1⟩
    let q : TimedAction Float := ⟨0, 0, "startmove", b.arguments, 2⟩
    ∃ w table start, World.ofProblem sweep = .ok w ∧
      (ActionTable.robot (.ofConfig .default)).prepare w = .ok (table, start) ∧
      let s : Simulation Float := ⟨table, start⟩
      s.table.domain ≠ .elevator ∧ (∀ x ∈ a.movers, x ∉ b.arguments) ∧ (∀ x ∈ b.movers, x ∉ a.arguments) ∧
        s.accepted? (.dispatch a p 0) = some a ∧ s.accepted? (.dispatch b q 1) = some b ∧
        (s.perform (.dispatch a p 0)).outcome b q 1 = s.outcome b q 1 ∧
        (s.perform (.dispatch b q 1)).outcome a p 0 = s.outcome a p 0 ∧
        (s.perform (.dispatch a p 0)).perform (.dispatch b q 1) =
          (s.perform (.dispatch b q 1)).perform (.dispatch a p 0) := by
  intro sweep a b p q
  have hRun : (ofProblem? sweep (.robot (.ofConfig .default))).any (fun begun => decide (
      begun.2.table.domain ≠ .elevator ∧ begun.2.accepted? (.dispatch a p 0) = some a ∧
      begun.2.accepted? (.dispatch b q 1) = some b)) = true := by
    decide +kernel
  obtain ⟨w, table, start, hWorld, hPrepare, hFacts⟩ := exists_of_ofProblem? hRun
  obtain ⟨hDomain, hAccepted, hOther⟩ := of_decide_eq_true hFacts
  have hFirst : ∀ x ∈ a.movers, x ∉ b.arguments := by decide
  have hSecond : ∀ x ∈ b.movers, x ∉ a.arguments := by decide
  exact ⟨w, table, start, hWorld, hPrepare, hDomain, hFirst, hSecond, hAccepted, hOther,
    dispatches_commute hDomain hFirst hSecond p q 0 1⟩

end Simulation

end PlanReplay

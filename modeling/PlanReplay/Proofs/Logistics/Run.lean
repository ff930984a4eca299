import PlanReplay.Proofs.Domain.Simulation
import PlanReplay.Proofs.World.Spared

/-!
# Runs of vehicles

An action of a vehicle is told by a verb and its arguments, and more than one verb may stand for it. An accepted action
has found its subject where it looks for it and puts it somewhere else, or fills a tank. No action changes facts, and
the table never changes.

* `Logistics.Action.verbs`, `Logistics.Action.decode_eq_ok` — the words that stand for an action.
* `Logistics.Table.load_eq_ok`, `Logistics.Table.unload_eq_ok`, `Logistics.Table.travel_eq_ok`,
  `Logistics.Table.refuel_eq_ok` — what the acceptance of an action says.
* `Logistics.Table.shift_of_effects`, `Logistics.Table.holds_origin` — where an action puts its subject, and where it was.
* `Simulation.run_logistics` — what stays along a run.
-/

namespace PlanReplay

variable {α : Type}

-- ---------------------------------------------------------------------------
-- Verbs
-- ---------------------------------------------------------------------------

namespace Logistics.Action

/-- The verbs that stand for an action. -/
def verbs : Action → List String
  | .load _ _ _ => ["load-truck", "load-airplane"]
  | .unload _ _ _ => ["unload-truck", "unload-airplane"]
  | .travel .drive _ _ _ _ false => ["drive", "drive-truck", "start-drive"]
  | .travel .drive _ _ _ _ true => ["drive-between-cities"]
  | .travel .fly _ _ _ _ false => ["fly", "fly-airplane", "start-fly"]
  | .travel .fly _ _ _ _ true => []
  | .refuel _ _ => ["refuel", "refuel-truck", "refuel-airplane"]

theorem decodeTravel_eq_ok {mode : Mode} {crossesCities : Bool} {a : TimedAction α} {action : Action}
    (h : decodeTravel mode crossesCities a = .ok action) :
    ∃ vehicle start goal extra, action = .travel mode vehicle start goal extra crossesCities ∧
      a.args = action.referenced := by
  unfold decodeTravel at h
  split at h
  · rename_i vehicle start goal hArgs
    cases h
    exact ⟨vehicle, start, goal, none, rfl, hArgs⟩
  · rename_i vehicle start goal extra hArgs
    cases h
    exact ⟨vehicle, start, goal, some extra, rfl, hArgs⟩
  · cases h

/-- What is decoded is an action for which the verb stands, with the arguments. -/
theorem decode_eq_ok {a : TimedAction α} {action : Action} (h : decode a = .ok action) :
    a.name ∈ action.verbs ∧ a.args = action.referenced := by
  unfold decode at h
  split at h
  all_goals rename_i hName
  case h_1 | h_2 | h_3 | h_4 =>
    split at h
    · rename_i hArgs
      cases h
      exact ⟨by simp [hName, verbs], hArgs⟩
    · cases h
  case h_5 | h_6 | h_7 | h_8 | h_9 | h_10 | h_11 =>
    obtain ⟨vehicle, start, goal, extra, rfl, hArgs⟩ := decodeTravel_eq_ok h
    exact ⟨by simp [hName, verbs], hArgs⟩
  case h_12 | h_13 | h_14 =>
    split at h
    · rename_i hArgs
      cases h
      exact ⟨by simp [hName, verbs], hArgs⟩
    · rename_i hArgs
      cases h
      exact ⟨by simp [hName, verbs], hArgs⟩
    · cases h
  case h_15 => cases h

/-- The vehicle of an action. -/
def vehicle : Action → EntityId
  | .load _ vehicle _ | .unload _ vehicle _ | .travel _ vehicle _ _ _ _ | .refuel vehicle _ => vehicle

/-- Who an action may put somewhere else: the package that is loaded or unloaded, or else the vehicle. -/
def subject : Action → EntityId
  | .load package _ _ | .unload package _ _ => package
  | .travel _ vehicle _ _ _ _ | .refuel vehicle _ => vehicle

/-- Where an action that puts its subject somewhere else has to find it. -/
def origin? : Action → Option Placement
  | .load _ _ location => some (.isAt location)
  | .unload _ vehicle _ => some (.isIn vehicle)
  | .travel _ _ start _ _ _ => some (.isAt start)
  | .refuel _ _ => none

/-- Where an accepted action puts its subject, if it does not leave it where it is. -/
def landing? : Action → Option Placement
  | .load _ vehicle _ => some (.isIn vehicle)
  | .unload _ _ location => some (.isAt location)
  | .travel _ _ _ goal _ _ => some (.isAt goal)
  | .refuel _ _ => none

end Logistics.Action

-- ---------------------------------------------------------------------------
-- What acceptance says
-- ---------------------------------------------------------------------------

namespace Logistics.Table

variable {t : Table α} {w : World α} {package vehicle location start goal : EntityId} {effects : List (Effect α)}

/-- A package is loaded where it and the vehicle are. -/
theorem load_eq_ok (h : load w package vehicle location = .ok effects) :
    w.holds ⟨.isAt, package, location⟩ = true ∧ w.holds ⟨.isAt, vehicle, location⟩ = true ∧
      effects = [.unrelate ⟨.isAt, package, location⟩, .relate ⟨.isIn, package, vehicle⟩] := by
  unfold load at h
  split at h
  · rename_i hPackage
    split at h
    · rename_i hVehicle
      cases h
      exact ⟨hPackage, hVehicle, rfl⟩
    · cases h
  · cases h

/-- A package is unloaded from a vehicle that it is in, where the vehicle is. -/
theorem unload_eq_ok (h : unload w package vehicle location = .ok effects) :
    w.holds ⟨.isIn, package, vehicle⟩ = true ∧ w.holds ⟨.isAt, vehicle, location⟩ = true ∧
      effects = [.unrelate ⟨.isIn, package, vehicle⟩, .relate ⟨.isAt, package, location⟩] := by
  unfold unload at h
  split at h
  · rename_i hPackage
    split at h
    · rename_i hVehicle
      cases h
      exact ⟨hPackage, hVehicle, rfl⟩
    · cases h
  · cases h

/-- A tank is filled, wherever the vehicle is. -/
theorem refuel_eq_ok {place : Option EntityId} (h : t.refuel w vehicle place = .ok effects) :
    effects = [.setLevel vehicle .fuel t.params.fuelCapacity] := by
  unfold refuel at h
  split at h
  · cases h
  · cases h
    rfl

variable [Scalar α]

/-- What a travel burns. -/
def burnEffects (t : Table α) (w : World α) (mode : Mode) (vehicle : EntityId) : List (Effect α) :=
  match w.level? vehicle .fuel with
  | some _ => [.adjust vehicle .fuel (-t.fuelCost mode)]
  | none => []

/-- A vehicle travels from where it is, and its way does not cross a border of cities that it must not cross. -/
theorem travel_eq_ok {mode : Mode} {crossesCities : Bool}
    (h : t.travel w mode vehicle start goal crossesCities = .ok effects) :
    w.holds ⟨.isAt, vehicle, start⟩ = true ∧ cityBorder? w mode start goal crossesCities = none ∧
      effects = .relate ⟨.isAt, vehicle, goal⟩ :: t.burnEffects w mode vehicle := by
  unfold travel at h
  split at h
  · rename_i hStart
    split at h
    · cases h
    · rename_i hBorder
      refine ⟨hStart, hBorder, ?_⟩
      unfold burnEffects
      split at h
      · cases h
        rename_i hFuel
        rw [hFuel]
      · rename_i fuel hFuel
        split at h
        · cases h
        · cases h
          rw [hFuel]
  · cases h

/-- Every accepted action puts its subject where it says, and for the rest changes levels of its vehicle. -/
theorem shift_of_effects {scope : Scope} {action : Action} (hMover : scope.mover? = some action.vehicle)
    (h : t.effects w action = .ok effects) : Shift scope action.subject effects action.landing? := by
  cases action with
  | load package vehicle location =>
    obtain ⟨-, -, rfl⟩ := load_eq_ok h
    exact .change (.isAt location) (.isIn vehicle) (List.forall_mem_nil _)
  | unload package vehicle location =>
    obtain ⟨-, -, rfl⟩ := unload_eq_ok h
    exact .change (.isIn vehicle) (.isAt location) (List.forall_mem_nil _)
  | travel mode vehicle start goal extra crossesCities => exact travel_shift hMover h
  | refuel vehicle place =>
    obtain rfl := refuel_eq_ok h
    exact .stay (List.forall_mem_singleton.mpr (Effect.setLevel_within hMover _ _))

/-- An accepted action has found its subject where it looks for it. -/
theorem holds_origin {action : Action} (h : t.effects w action = .ok effects) {origin : Placement}
    (hOrigin : action.origin? = some origin) : w.holds (origin.relation action.subject) = true := by
  cases action with
  | load package vehicle location =>
    cases hOrigin
    exact (load_eq_ok h).1
  | unload package vehicle location =>
    cases hOrigin
    exact (unload_eq_ok h).1
  | travel mode vehicle start goal extra crossesCities =>
    cases hOrigin
    exact (travel_eq_ok h).1
  | refuel => cases hOrigin

/-- An accepted action of a vehicle keeps all facts. -/
theorem hasFact_of_effects {next : World α} {action : Action} (hEffects : t.effects w action = .ok effects)
    (h : w.applyEffects effects = .ok next) (fact : Fact) : next.hasFact fact = w.hasFact fact := by
  have hShift : Shift ⟨some action.vehicle, []⟩ action.subject effects action.landing? :=
    shift_of_effects rfl hEffects
  obtain ⟨-, staged, hStaged, -, rfl⟩ := World.applyEffects_eq_ok_iff.mp h
  simp only [World.hasFact, (hShift.frame hStaged).facts fact List.not_mem_nil]

end Logistics.Table

-- ---------------------------------------------------------------------------
-- Dispatches
-- ---------------------------------------------------------------------------

namespace ActionTable

variable [Scalar α] {t : Logistics.Table α} {table : ActionTable α} {w next : World α}

/-- In the domain of vehicles an accepted action keeps the table, and is a wait or a batch of effects. -/
theorem dispatch_logistics {action : DomainAction} {a : TimedAction α} {clock : α} {applied : Applied α}
    (h : (logistics t).dispatch action a w clock = .ok (table, next, applied)) :
    table = logistics t ∧ ((action = .wait ∧ next = w) ∨
      ∃ act effects, action = .logistics act ∧ t.effects w act = .ok effects ∧ w.applyEffects effects = .ok next) := by
  cases action with
  | wait =>
    cases h
    exact ⟨rfl, Or.inl ⟨rfl, rfl⟩⟩
  | elevator action | robot action => cases h
  | logistics action =>
    simp only [dispatch] at h
    split at h
    · rename_i hAttempt
      cases h
      obtain ⟨effects, hEffects, hApply⟩ := World.effects_of_attempt hAttempt
      exact ⟨rfl, Or.inr ⟨action, effects, rfl, refusing_eq_ok_iff.mp hEffects, hApply⟩⟩
    · cases h

omit [Scalar α] in
/-- What a table of vehicles decodes is a wait or an action of a vehicle. -/
theorem decode_logistics {action : DomainAction} {a : TimedAction α} (h : (logistics t).decode a = .ok action) :
    action = .wait ∨ ∃ act, action = .logistics act ∧ Logistics.Action.decode a = .ok act := by
  unfold decode at h
  split at h
  · cases h
    exact Or.inl rfl
  · dsimp only at h
    cases hAct : Logistics.Action.decode a with
    | error e =>
      rw [hAct] at h
      cases h
    | ok act =>
      rw [hAct] at h
      cases h
      exact Or.inr ⟨act, rfl, rfl⟩

/-- Preparing a table of vehicles keeps it, gives fuel to vehicles, and changes nothing else. -/
theorem prepare_logistics (h : (logistics t).prepare w = .ok (table, next)) :
    table = logistics t ∧ w.applyEffects (t.prepare w) = .ok next ∧
      next.state.relations = w.state.relations ∧ next.state.facts = w.state.facts := by
  unfold prepare at h
  dsimp only at h
  split at h
  · rename_i hApply
    cases h
    refine ⟨rfl, hApply, ?_⟩
    obtain ⟨-, staged, hStaged, -, rfl⟩ := World.applyEffects_eq_ok_iff.mp hApply
    refine State.rest_of_fluents ?_ hStaged
    intro effect hEffect
    unfold Logistics.Table.prepare at hEffect
    split at hEffect
    · obtain ⟨vehicle, -, rfl⟩ := List.mem_map.mp hEffect
      exact nofun
    · cases hEffect
  · cases h

end ActionTable

namespace Simulation

variable [Scalar α]

/-- A call on vehicles keeps the table and all facts. -/
theorem perform_logistics {t : Logistics.Table α} {s : Simulation α} (hTable : s.table = .logistics t)
    (call : SimulationCall α) :
    (s.perform call).table = .logistics t ∧ ∀ fact, (s.perform call).world.hasFact fact = s.world.hasFact fact := by
  rcases s.perform_cases call with ⟨-, hWorld, hRests⟩ | ⟨action, -, timed, clock, applied, hDispatch⟩
  · rw [hTable] at hRests
    exact ⟨hRests.eq_self nofun, fun fact => by rw [hWorld]⟩
  · rw [hTable] at hDispatch
    obtain ⟨hNext, hCases⟩ := ActionTable.dispatch_logistics hDispatch
    refine ⟨hNext, fun fact => ?_⟩
    rcases hCases with ⟨-, hSame⟩ | ⟨act, effects, -, hEffects, hApply⟩
    · rw [hSame]
    · exact Logistics.Table.hasFact_of_effects hEffects hApply fact

/-- Calls on vehicles keep the table and all facts. -/
theorem run_logistics {t : Logistics.Table α} {s : Simulation α} (hTable : s.table = .logistics t)
    (calls : List (SimulationCall α)) :
    (s.run calls).table = .logistics t ∧ ∀ fact, (s.run calls).world.hasFact fact = s.world.hasFact fact := by
  refine run_induction (motive := fun last => last.table = .logistics t ∧
    ∀ fact, last.world.hasFact fact = s.world.hasFact fact) ⟨hTable, fun _ => rfl⟩ ?_ calls
  rintro last call ⟨hLast, hFacts⟩
  obtain ⟨hNext, hSame⟩ := perform_logistics hLast call
  exact ⟨hNext, fun fact => (hSame fact).trans (hFacts fact)⟩

end Simulation

end PlanReplay

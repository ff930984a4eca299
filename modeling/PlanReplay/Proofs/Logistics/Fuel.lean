import PlanReplay.Proofs.Double.Value
import PlanReplay.Proofs.Logistics.Run
import PlanReplay.Proofs.World.Structure

/-!
# The fuel of vehicles

A travel burns fuel of its vehicle if there is a level to burn from, and a vehicle without a level travels for nothing.
Filling a tank sets the level, also where there was none. Nothing else touches it, and so the level after a run is what
the travels and fillings of the vehicle make of the level before, one after the other.

* `Logistics.FuelChange`, `fuelChanges` — what actions make of the fuel of a vehicle.
* `Logistics.Action.fuelChange?_of_decode` — the verbs that stand for it.
* `Logistics.Table.fuel_of_effects`, `Simulation.fuel_of_run` — the fuel after an action and after a run.
* `ActionTable.dispatch_insufficient_iff` — when a travel is rejected for want of fuel.
* `Simulation.run_fuel` — both along a run.
-/

namespace PlanReplay

variable {α : Type}

-- ---------------------------------------------------------------------------
-- Changes of fuel
-- ---------------------------------------------------------------------------

namespace Logistics

/-- A travel burns fuel, or a tank is filled. -/
inductive FuelChange where
  | burn (mode : Mode)
  | fill
deriving DecidableEq

/-- What a verb makes of the fuel of its vehicle. -/
def FuelChange.ofVerb? (verb : String) : Option FuelChange :=
  if verb ∈ ["drive", "drive-truck", "start-drive", "drive-between-cities"] then some (.burn .drive)
  else if verb ∈ ["fly", "fly-airplane", "start-fly"] then some (.burn .fly)
  else if verb ∈ ["refuel", "refuel-truck", "refuel-airplane"] then some .fill
  else none

/-- What an action makes of the fuel of `vehicle`. -/
def Action.fuelChange? (vehicle : EntityId) : Action → Option FuelChange
  | .travel mode other _ _ _ _ => if other = vehicle then some (.burn mode) else none
  | .refuel other _ => if other = vehicle then some .fill else none
  | .load _ _ _ | .unload _ _ _ => none

/-- The level that a change leaves. Nothing burns where there is no level. -/
def Table.fuelAfter [Sub α] (t : Table α) (fuel? : Option α) : FuelChange → Option α
  | .burn mode => fuel?.map fun fuel => fuel - t.fuelCost mode
  | .fill => some t.params.fuelCapacity

end Logistics

/-- What an action of any domain makes of the fuel of `vehicle`. -/
def DomainAction.fuelChange? (vehicle : EntityId) : DomainAction → Option Logistics.FuelChange
  | .logistics action => action.fuelChange? vehicle
  | .elevator _ | .robot _ | .wait => none

/-- What an action of a plan makes of the fuel of `vehicle`: the verb says what, and the first argument is the one whose
fuel it is. -/
def TimedAction.fuelChange? (vehicle : EntityId) (a : TimedAction α) : Option Logistics.FuelChange :=
  if a.args.head? = some vehicle then Logistics.FuelChange.ofVerb? a.name else none

/-- What actions make of the fuel of `vehicle`, in order. -/
def fuelChanges (vehicle : EntityId) (actions : List DomainAction) : List Logistics.FuelChange :=
  actions.filterMap (DomainAction.fuelChange? vehicle)

open Logistics

/-- A verb makes of fuel what the actions make of it for which the verb stands. -/
theorem Logistics.FuelChange.ofVerb?_of_mem {verb : String} {action : Action} (h : verb ∈ action.verbs) :
    ofVerb? verb =
      match action with
      | .travel mode _ _ _ _ _ => some (.burn mode)
      | .refuel _ _ => some .fill
      | .load _ _ _ | .unload _ _ _ => none := by
  cases action with
  | load | unload | refuel =>
    simp only [Action.verbs, List.mem_cons, List.not_mem_nil, or_false] at h
    rcases h with rfl | rfl | rfl <;> rfl
  | travel mode vehicle start goal extra crossesCities =>
    cases mode <;> cases crossesCities <;>
      simp only [Action.verbs, List.mem_cons, List.not_mem_nil, or_false] at h <;>
      rcases h with rfl | rfl | rfl <;> rfl

/-- An action of a vehicle makes of the fuel what its verb says. -/
theorem Logistics.Action.fuelChange?_of_decode {a : TimedAction α} {action : Action} (h : Action.decode a = .ok action)
    (v : EntityId) : action.fuelChange? v = a.fuelChange? v := by
  obtain ⟨hVerb, hArgs⟩ := Action.decode_eq_ok h
  unfold TimedAction.fuelChange?
  rw [hArgs, FuelChange.ofVerb?_of_mem hVerb]
  cases action with
  | load | unload => exact (ite_self none).symm
  | travel | refuel => simp only [fuelChange?, referenced, List.head?_cons, Option.some.injEq]

/-- What a table of vehicles decodes makes of the fuel what its verb says. -/
theorem ActionTable.fuelChange?_of_decode {t : Logistics.Table α} {a : TimedAction α} {action : DomainAction}
    (h : (logistics t).decode a = .ok action) (v : EntityId) : action.fuelChange? v = a.fuelChange? v := by
  unfold decode at h
  split at h
  · rename_i hWait
    cases h
    -- no fuel is burnt by waiting
    have hName : a.name = "wait" := of_decide_eq_true hWait
    unfold TimedAction.fuelChange?
    rw [hName]
    exact (ite_self none).symm
  · dsimp only at h
    cases hAct : Action.decode a with
    | error e =>
      rw [hAct] at h
      cases h
    | ok act =>
      rw [hAct] at h
      cases h
      exact Action.fuelChange?_of_decode hAct v

-- ---------------------------------------------------------------------------
-- One action
-- ---------------------------------------------------------------------------

namespace Logistics.Table

variable {t : Table Float} {w next : World Float} {effects : List (Effect Float)}

/-- A travel burns fuel of its vehicle only. -/
theorem fluent_of_burnEffects {mode : Mode} {vehicle : EntityId} {effect : Effect Float} {fluent : Fluent}
    (h : effect ∈ t.burnEffects w mode vehicle) (hFluent : effect.fluent? = some fluent) :
    fluent = ⟨.fuel, [vehicle]⟩ := by
  unfold burnEffects at h
  split at h
  · obtain rfl := List.mem_singleton.mp h
    cases hFluent
    rfl
  · cases h

/-- A travel takes its cost off the fuel of its vehicle, where there is any. -/
theorem fuel_of_travel {mode : Mode} {vehicle goal : EntityId} {staged : State Float}
    (h : w.state.applyAll (.relate ⟨.isAt, vehicle, goal⟩ :: t.burnEffects w mode vehicle) = .ok staged) :
    staged.level? vehicle .fuel = (w.level? vehicle .fuel).map fun fuel => fuel - t.fuelCost mode := by
  obtain ⟨moved, hMoved, hBurn⟩ := State.applyAll_cons h
  cases hMoved
  unfold burnEffects at hBurn
  cases hLevel : w.level? vehicle .fuel with
  | none =>
    rw [hLevel] at hBurn
    cases hBurn
    exact hLevel
  | some fuel =>
    rw [hLevel] at hBurn
    have hSame : State.level? { w.state with relations := State.relate w.state.relations ⟨.isAt, vehicle, goal⟩ }
        vehicle .fuel = some fuel := hLevel
    obtain ⟨burnt, hBurnt, hDone⟩ := State.applyAll_cons hBurn
    cases hDone
    simp only [State.apply, hSame] at hBurnt
    cases hBurnt
    rw [Option.map_some, ← Double.add_neg]
    exact OrderedMap.get?_insert_self _ _ _

/-- **Fuel after an action.** An accepted action makes of the fuel of every vehicle what it says. -/
theorem fuel_of_effects {action : Action} (hEffects : t.effects w action = .ok effects)
    (h : w.applyEffects effects = .ok next) (v : EntityId) :
    next.level? v .fuel = (action.fuelChange? v).toList.foldl t.fuelAfter (w.level? v .fuel) := by
  obtain ⟨-, staged, hStaged, -, rfl⟩ := World.applyEffects_eq_ok_iff.mp h
  cases action with
  | load package vehicle location =>
    obtain ⟨-, -, rfl⟩ := load_eq_ok hEffects
    refine State.fluent_of_spared ?_ hStaged
    intro effect hEffect
    rcases List.mem_pair.mp hEffect with rfl | rfl <;> exact nofun
  | unload package vehicle location =>
    obtain ⟨-, -, rfl⟩ := unload_eq_ok hEffects
    refine State.fluent_of_spared ?_ hStaged
    intro effect hEffect
    rcases List.mem_pair.mp hEffect with rfl | rfl <;> exact nofun
  | travel mode vehicle start goal extra crossesCities =>
    obtain ⟨-, -, rfl⟩ := travel_eq_ok hEffects
    by_cases hSame : vehicle = v
    · subst hSame
      rw [Action.fuelChange?, if_pos rfl]
      exact fuel_of_travel hStaged
    · rw [Action.fuelChange?, if_neg hSame]
      refine State.fluent_of_spared ?_ hStaged
      intro effect hEffect hFluent
      rcases List.mem_cons.mp hEffect with rfl | hBurn
      · cases hFluent
      · cases fluent_of_burnEffects hBurn hFluent
        exact hSame rfl
  | refuel vehicle place =>
    obtain rfl := refuel_eq_ok hEffects
    by_cases hSame : vehicle = v
    · subst hSame
      rw [Action.fuelChange?, if_pos rfl]
      exact World.level?_of_getLast? h rfl
    · rw [Action.fuelChange?, if_neg hSame]
      refine State.fluent_of_spared ?_ hStaged
      intro effect hEffect hFluent
      obtain rfl := List.mem_singleton.mp hEffect
      cases hFluent
      exact hSame rfl

-- ---------------------------------------------------------------------------
-- Want of fuel
-- ---------------------------------------------------------------------------

section

variable {mode : Mode} {vehicle start goal : EntityId} {crossesCities : Bool}

/-- A way crosses no border that it must not cross iff it is no drive inside a city, or no two cities are known between
which it leads. -/
theorem cityBorder?_eq_none_iff : cityBorder? w mode start goal crossesCities = none ↔
    (mode = .drive → crossesCities = false → ∀ startCity goalCity, cityOf? w start = some startCity →
      cityOf? w goal = some goalCity → startCity = goalCity) := by
  unfold cityBorder?
  by_cases hInside : mode = .drive ∧ crossesCities = false
  · rw [if_pos hInside]
    simp only [hInside, forall_const]
    cases hStart : cityOf? w start with
    | none => simp
    | some startCity =>
      cases hGoal : cityOf? w goal with
      | none => simp
      | some goalCity => simp
  · rw [if_neg hInside]
    simpa using fun hMode hCrosses => absurd ⟨hMode, hCrosses⟩ hInside

/-- A travel finds too little fuel after it has found the vehicle where it starts from and no border in the way. -/
theorem travel_insufficient_iff {entity : EntityId} {key : ResourceKey} {required available : Float} :
    t.travel w mode vehicle start goal crossesCities =
        .error (.insufficientResource entity key required available) ↔
      w.holds ⟨.isAt, vehicle, start⟩ = true ∧ cityBorder? w mode start goal crossesCities = none ∧
        w.level? vehicle .fuel = some available ∧ available < t.fuelCost mode ∧ entity = vehicle ∧ key = .fuel ∧
          required = t.fuelCost mode := by
  unfold travel
  by_cases hStart : w.holds ⟨.isAt, vehicle, start⟩ = true
  · rw [if_pos hStart]
    cases hBorder : cityBorder? w mode start goal crossesCities with
    | some cities => simp
    | none =>
      cases hLevel : w.level? vehicle .fuel with
      | none => simp
      | some fuel =>
        dsimp only
        split
        · rename_i hShort
          simp only [Except.error.injEq, Violation.insufficientResource.injEq, hStart, Option.some.injEq, true_and]
          constructor
          · rintro ⟨rfl, rfl, rfl, rfl⟩
            exact ⟨rfl, hShort, rfl, rfl, rfl⟩
          · rintro ⟨rfl, -, rfl, rfl, rfl⟩
            exact ⟨rfl, rfl, rfl, rfl⟩
        · rename_i hEnough
          simp only [reduceCtorEq, Option.some.injEq, false_iff]
          rintro ⟨-, -, rfl, hShort, -⟩
          exact hEnough hShort
  · rw [if_neg hStart]
    simp [hStart]

end

end Logistics.Table

namespace ActionTable

/-- A dispatch of a vehicle fails as its attempt does. -/
theorem dispatch_logistics_error_iff [Scalar α] {t : Logistics.Table α} {w : World α} {action : Action}
    {timed : TimedAction α} {clock : α} {failure : Failure (Rejection α)} :
    (logistics t).dispatch (.logistics action) timed w clock = .error failure ↔
      w.attempt action.referenced (refusing (t.effects w action)) = .error failure := by
  unfold dispatch
  dsimp only
  cases w.attempt action.referenced (refusing (t.effects w action)) with
  | ok next => simp only [reduceCtorEq]
  | error cause => simp only [Except.error.injEq]

/-- A travel that names declared entities is rejected for want of fuel iff it finds too little: the world itself never
says so. -/
theorem dispatch_insufficient_iff {t : Logistics.Table Float} {w : World Float} {mode : Mode}
    {vehicle start goal : EntityId} {extra : Option EntityId} {crossesCities : Bool}
    (hKnown : ∀ id ∈ (Action.travel mode vehicle start goal extra crossesCities).referenced, w.contains id = true)
    (timed : TimedAction Float) (clock : Float) {entity : EntityId} {key : ResourceKey} {required available : Float} :
    (logistics t).dispatch (.logistics (.travel mode vehicle start goal extra crossesCities)) timed w clock =
        .error (.refused (.violated (.insufficientResource entity key required available))) ↔
      t.travel w mode vehicle start goal crossesCities =
        .error (.insufficientResource entity key required available) := by
  rw [dispatch_logistics_error_iff, World.attempt_demand_iff rfl, and_iff_right hKnown, refusing_eq_refused_iff]
  exact Iff.rfl

end ActionTable

-- ---------------------------------------------------------------------------
-- Runs
-- ---------------------------------------------------------------------------

namespace Simulation

/-- A call makes of the fuel of a vehicle what the action says that it carries out. -/
theorem fuel_of_perform {t : Logistics.Table Float} {s : Simulation Float} (hTable : s.table = .logistics t)
    (call : SimulationCall Float) (v : EntityId) :
    (s.perform call).world.level? v .fuel =
      ((s.accepted? call).bind (DomainAction.fuelChange? v)).toList.foldl t.fuelAfter (s.world.level? v .fuel) := by
  rcases s.perform_cases call with ⟨hNone, hWorld, -⟩ | ⟨action, hSome, timed, clock, applied, hDispatch⟩
  · rw [hNone, hWorld]
    rfl
  · rw [hSome]
    rw [hTable] at hDispatch
    obtain ⟨-, ⟨rfl, hWorld⟩ | ⟨act, effects, rfl, hEffects, hApply⟩⟩ := ActionTable.dispatch_logistics hDispatch
    · rw [hWorld]
      rfl
    · exact Logistics.Table.fuel_of_effects hEffects hApply v

/-- **Fuel after a run.** The fuel of a vehicle is what its travels and fillings make of it, one after the other. -/
theorem fuel_of_run {t : Logistics.Table Float} (calls : List (SimulationCall Float)) (v : EntityId) :
    ∀ {s : Simulation Float}, s.table = .logistics t →
      (s.run calls).world.level? v .fuel =
        (fuelChanges v (s.accepted calls)).foldl t.fuelAfter (s.world.level? v .fuel) := by
  intro s hTable
  refine (run_accounts (motive := fun made last => last.table = .logistics t ∧
    last.world.level? v .fuel = (fuelChanges v made).foldl t.fuelAfter (s.world.level? v .fuel)) ⟨hTable, rfl⟩ ?_ calls).2
  rintro made last call ⟨hLast, hMade⟩
  refine ⟨(perform_logistics hLast call).1, ?_⟩
  rw [fuel_of_perform hLast call v, hMade, fuelChanges, fuelChanges, List.filterMap_append, filterMap_toList_accepted?,
    List.foldl_append]

/--
**Fuel ledger.** Prepare a table of vehicles for any world, reachable or not, and let any calls follow. The fuel of any
entity `v` is what its accepted travels and fillings make of its fuel after the preparation, in order: a travel takes
off the cost of its mode if there is fuel, a filling gives the capacity of a tank, and nothing else changes the fuel. An
action of a plan is a travel or a filling of `v` by its verb and its first argument. After the calls, a travel of `v`
that names declared entities is rejected for want of a resource iff `v` is where the travel starts, the travel does not
leave a city inside which it must stay, and the fuel of `v` is below the cost of the mode. A rejected action leaves `v`
where it is.
-/
theorem run_fuel {t : Logistics.Table Float} {table : ActionTable Float} {w start : World Float}
    (hPrepare : (ActionTable.logistics t).prepare w = .ok (table, start)) (calls : List (SimulationCall Float))
    (v : EntityId) :
    let first : Simulation Float := ⟨table, start⟩
    let last := first.run calls
    last.world.level? v .fuel =
        (fuelChanges v (first.accepted calls)).foldl t.fuelAfter (start.level? v .fuel) ∧
      (∀ a action, table.decode a = .ok action → action.fuelChange? v = a.fuelChange? v) ∧
      (∀ mode origin goal extra crossesCities timed clock entity key required available,
        (∀ id ∈ (Action.travel mode v origin goal extra crossesCities).referenced, last.world.contains id = true) →
          (last.table.dispatch (.logistics (.travel mode v origin goal extra crossesCities)) timed last.world clock =
              .error (.refused (.violated (.insufficientResource entity key required available))) ↔
            last.world.holds ⟨.isAt, v, origin⟩ = true ∧
              (mode = .drive → crossesCities = false → ∀ originCity goalCity,
                cityOf? last.world origin = some originCity → cityOf? last.world goal = some goalCity →
                  originCity = goalCity) ∧
              last.world.level? v .fuel = some available ∧ available < t.fuelCost mode ∧
              entity = v ∧ key = .fuel ∧ required = t.fuelCost mode)) ∧
      ∀ action timed clock rejection, last.table.dispatch action timed last.world clock = .error rejection →
        (last.perform (.dispatch action timed clock)).world.placement? v = last.world.placement? v := by
  intro first last
  have hTable : table = .logistics t := (ActionTable.prepare_logistics hPrepare).1
  have hLastTable : last.table = .logistics t := (run_logistics (s := first) hTable calls).1
  refine ⟨fuel_of_run calls v hTable, ?_, ?_, ?_⟩
  · intro a action hDecode
    rw [hTable] at hDecode
    exact ActionTable.fuelChange?_of_decode hDecode v
  · intro mode origin goal extra crossesCities timed clock entity key required available hKnown
    rw [hLastTable, ActionTable.dispatch_insufficient_iff hKnown timed clock,
      Logistics.Table.travel_insufficient_iff, Logistics.Table.cityBorder?_eq_none_iff]
  · intro action timed clock rejection hRejected
    simp only [perform, hRejected]

/-- A truck has fuel for one drive, and is filled when it cannot drive back. A package drives too, and burns nothing. -/
theorem run_fuel_of_round_trip :
    let p : Problem := ⟨"delivery", "logistics",
      [⟨"t", "truck"⟩, ⟨"p", "package"⟩, ⟨"a", "location"⟩, ⟨"b", "location"⟩],
      [⟨"at", ["t", "a"]⟩, ⟨"at", ["p", "a"]⟩], [⟨"fuel", ["t"], 15⟩], []⟩
    let t : Logistics.Table Float := .ofConfig .default .event
    let timed (name : String) (action : Action) : TimedAction Float := ⟨0, 0, name, action.referenced, 1⟩
    let call (name : String) (action : Action) : SimulationCall Float :=
      .dispatch (.logistics action) (timed name action) 0
    let outward : Action := .travel .drive ⟨"t"⟩ ⟨"a"⟩ ⟨"b"⟩ none false
    let alongside : Action := .travel .drive ⟨"p"⟩ ⟨"a"⟩ ⟨"b"⟩ none false
    let back : Action := .travel .drive ⟨"t"⟩ ⟨"b"⟩ ⟨"a"⟩ none false
    let fill : Action := .refuel ⟨"t"⟩ (some ⟨"b"⟩)
    let calls := [call "drive" outward, call "drive-truck" back, call "drive" alongside]
    ∃ w table start, World.ofProblem p = .ok w ∧ w.Reachable ∧
      (ActionTable.logistics t).prepare w = .ok (table, start) ∧
      let first : Simulation Float := ⟨table, start⟩
      let last := first.run calls
      first.accepted calls = [.logistics outward, .logistics alongside] ∧
        last.world.level? ⟨"t"⟩ .fuel = some 5 ∧ last.world.level? ⟨"p"⟩ .fuel = none ∧
        last.world.level? ⟨"t"⟩ .fuel =
          (fuelChanges ⟨"t"⟩ (first.accepted calls)).foldl t.fuelAfter (start.level? ⟨"t"⟩ .fuel) ∧
        last.table.dispatch (.logistics back) (timed "drive-truck" back) last.world 0 =
          .error (.refused (.violated (.insufficientResource ⟨"t"⟩ .fuel 10 5))) ∧
        last.accepted [call "refuel-truck" fill, call "start-drive" back] = [.logistics fill, .logistics back] ∧
        (last.run [call "refuel-truck" fill, call "start-drive" back]).world.level? ⟨"t"⟩ .fuel = some 90 := by
  intro p t timed call outward alongside back fill calls
  have hRun : (ofProblem? p (.logistics t)).any (fun begun => decide (
      begun.2.accepted calls = [.logistics outward, .logistics alongside] ∧
      (begun.2.run calls).world.level? ⟨"t"⟩ .fuel = some 5 ∧ (begun.2.run calls).world.level? ⟨"p"⟩ .fuel = none ∧
      (begun.2.run calls).accepted [call "refuel-truck" fill, call "start-drive" back] =
        [.logistics fill, .logistics back] ∧
      ((begun.2.run calls).run [call "refuel-truck" fill, call "start-drive" back]).world.level? ⟨"t"⟩ .fuel = some 90 ∧
      (∀ id ∈ back.referenced, (begun.2.run calls).world.contains id = true) ∧
      (begun.2.run calls).world.holds ⟨.isAt, ⟨"t"⟩, ⟨"b"⟩⟩ = true ∧
      cityOf? (begun.2.run calls).world ⟨"b"⟩ = none ∧ (5 : Float) < t.fuelCost .drive ∧
      (10 : Float) = t.fuelCost .drive)) = true := by
    decide +kernel
  obtain ⟨w, table, start, hWorld, hPrepare, hChecked⟩ := exists_of_ofProblem? hRun
  obtain ⟨hAccepted, hLevel, hNoTank, hBack, hFilled, hKnown, hThere, hCity, hShort, hCost⟩ :=
    of_decide_eq_true hChecked
  have hReachable : w.Reachable := .ofProblem hWorld
  obtain ⟨hLedger, -, hWant, -⟩ := run_fuel hPrepare calls ⟨"t"⟩
  refine ⟨w, table, start, hWorld, hReachable, hPrepare, hAccepted, hLevel, hNoTank, hLedger, ?_, hBack, hFilled⟩
  refine (hWant .drive ⟨"b"⟩ ⟨"a"⟩ none false _ 0 ⟨"t"⟩ .fuel 10 5 hKnown).mpr
    ⟨hThere, ?_, hLevel, hShort, rfl, rfl, hCost⟩
  intro _ _ originCity goalCity hOrigin
  exact nomatch hCity.symm.trans hOrigin

end Simulation

end PlanReplay

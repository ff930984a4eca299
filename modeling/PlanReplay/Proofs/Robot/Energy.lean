import Mathlib.Algebra.Order.Field.Basic
import PlanReplay.Proofs.Exact
import PlanReplay.Proofs.Robot.Run

/-!
# The energy of robots

In exact numbers a travel takes from the battery what the way that it covers costs, and leaves of its way what it does not
cover. A robot that charges gets no less than it had and no more than it can hold: what the formula of charging gives is
brought between these two, whatever stands in for the exponential function. So no battery is ever below zero or above its
capacity.

* `RobotParams.Feasible`, `RunConfig.IsValid.feasible` — what validation says of the parameters of robots.
* `Robot.Table.route_accounts` — what a route costs and leaves.
* `Robot.Table.chargedLevel_between` — what charging gives.
* `Robot.Charged.step`, `Simulation.run_charged` — batteries stay between zero and the capacity.
* `Simulation.run_energy` — the whole account.
-/

namespace PlanReplay

open Robot

-- ---------------------------------------------------------------------------
-- Parameters
-- ---------------------------------------------------------------------------

variable {exp : ℚ → ℚ}

/-- A valid configuration meets all its requirements. -/
theorem RunConfig.IsValid.holds {α : Type} [Scalar α] {config : RunConfig α} (h : config.IsValid) :
    ∀ fault ∈ config.requirements, fault.requirement.holds fault.value = true := by
  intro fault hFault
  simpa using List.find?_eq_none.mp h fault hFault

/-- Parameters with which robots can move and charge. -/
structure RobotParams.Feasible (p : RobotParams (Exact exp)) : Prop where
  routeLength : 0 < p.routeLength
  moveSpeed : 0 < p.moveSpeed
  drainRate : 0 ≤ p.drainRate
  chargeRate : 0 < p.chargeRate
  depletionThreshold : 0 ≤ p.depletionThreshold
  batteryCapacity : 0 < p.batteryCapacity

/-- The parameters of robots in a valid configuration are feasible. -/
theorem RunConfig.IsValid.feasible {config : RunConfig (Exact exp)} (h : config.IsValid) : config.robot.Feasible := by
  have hRobot := (List.forall_mem_append.mp h.holds).2
  simp only [List.forall_mem_cons, Requirement.holds, Scalar.isFinite, Bool.true_and, decide_eq_true_eq] at hRobot
  obtain ⟨hLength, hSpeed, hDrain, hRate, hCapacity, hThreshold, -⟩ := hRobot
  exact ⟨hLength, hSpeed, hDrain, hRate, hThreshold, hCapacity⟩

-- ---------------------------------------------------------------------------
-- Routes
-- ---------------------------------------------------------------------------

namespace Robot

/-- A route takes from a battery what the way that it covers costs, and does not bring it below the threshold. -/
structure Route.Accounts (r : Route (Exact exp)) (p : RobotParams (Exact exp)) (battery after : Exact exp) : Prop where
  batteryAfter : r.batteryAfter = some after
  drained : after = battery - p.drainRate / p.moveSpeed * r.travelled
  spared : p.depletionThreshold ≤ after
  travelled_nonneg : 0 ≤ r.travelled
  travelled_le : r.travelled ≤ r.length

/-- A battery is not charged on the way. -/
theorem Route.Accounts.after_le {r : Route (Exact exp)} {p : RobotParams (Exact exp)} {battery after : Exact exp}
    (h : r.Accounts p battery after) (hParams : p.Feasible) : after ≤ battery := by
  rw [h.drained]
  have hDrain : 0 ≤ p.drainRate / p.moveSpeed := div_nonneg hParams.drainRate hParams.moveSpeed.le
  exact sub_le_self _ (mul_nonneg hDrain h.travelled_nonneg)

namespace Table

variable {t : Table (Exact exp)} {w next : World (Exact exp)} {robot start goal : EntityId} {resume : Bool}
  {effects : List (Effect (Exact exp))} {battery : Exact exp}

/-- Who is not depleted has a battery above the threshold. -/
theorem lt_of_depleted? (h : t.depleted? w robot = none) (hBattery : w.level? robot .battery = some battery) :
    t.params.depletionThreshold < battery := by
  unfold depleted? at h
  rw [hBattery] at h
  dsimp only at h
  split at h
  · cases h
  · rename_i hAbove
    exact not_le.mp hAbove

theorem length_route (robot start goal : EntityId) (resume : Bool) :
    (t.route w robot start goal resume).length = t.routeLength w robot start goal resume := by
  unfold route
  dsimp only
  split
  · rfl
  · split <;> rfl

/-- A length that is not positive is not used. -/
theorem routeLength_pos (hParams : t.params.Feasible) : 0 < t.routeLength w robot start goal resume := by
  have hKept {o : Option (Exact exp)} {x : Exact exp} (h : o.filter (fun x => decide (0 < x)) = some x) : 0 < x :=
    of_decide_eq_true (Option.filter_eq_some_iff.mp h).2
  unfold routeLength
  dsimp only
  generalize hLeft : (if resume then (w.level? robot routeRemaining).filter fun x => decide (0 < x) else none) = left
  generalize hDistance : (w.fluent? .distance [start, goal]).filter (fun x => decide (0 < x)) = distance
  cases left with
  | some x =>
    split at hLeft
    · exact hKept hLeft
    · cases hLeft
  | none =>
    cases distance with
    | some x => exact hKept hDistance
    | none => exact hParams.routeLength

/-- What a travel costs, and what it leaves in the battery, where there is power for it. -/
theorem route_accounts (hParams : t.params.Feasible) (hBattery : w.level? robot .battery = some battery)
    (hPower : t.params.depletionThreshold < battery) :
    ∃ after, (t.route w robot start goal resume).Accounts t.params battery after := by
  have hLength : 0 < t.routeLength w robot start goal resume := routeLength_pos hParams
  have hDrain : 0 ≤ t.params.drainRate / t.params.moveSpeed := div_nonneg hParams.drainRate hParams.moveSpeed.le
  have hSpare : Scalar.nonNegative (battery - t.params.depletionThreshold) = battery - t.params.depletionThreshold :=
    max_eq_left (sub_nonneg.mpr hPower.le)
  unfold route
  rw [hBattery]
  dsimp only
  split
  · -- there is enough for the whole way, or ways cost nothing
    rename_i hEnough
    refine ⟨_, rfl, rfl, ?_, hLength.le, le_refl _⟩
    rcases hEnough with hEnough | hIdle
    · exact le_sub_comm.mp (hEnough.trans_eq hSpare)
    · have hFree : t.params.drainRate / t.params.moveSpeed * t.routeLength w robot start goal resume = 0 :=
        mul_eq_zero_of_left (le_antisymm hIdle hDrain) _
      exact hPower.le.trans_eq ((sub_zero battery).symm.trans (congrArg (battery - ·) hFree.symm))
  · -- what is covered costs all that can be spared
    rename_i hShort
    rw [not_or, not_le, not_le] at hShort
    obtain ⟨hShort, hCosts⟩ := hShort
    have hCost : t.params.drainRate / t.params.moveSpeed *
        (Scalar.nonNegative (battery - t.params.depletionThreshold) / (t.params.drainRate / t.params.moveSpeed)) =
          battery - t.params.depletionThreshold :=
      (mul_div_cancel₀ _ hCosts.ne').trans hSpare
    refine ⟨_, rfl, ?_, le_refl _, div_nonneg (le_max_right _ _) hDrain, (div_le_iff₀' hCosts).mpr hShort.le⟩
    exact (sub_sub_cancel battery _).symm.trans (congrArg (battery - ·) hCost.symm)

-- ---------------------------------------------------------------------------
-- What actions do to batteries
-- ---------------------------------------------------------------------------

/-- What is brought between two bounds is between them. -/
theorem clamp_between {low high x : Exact exp} (h : low ≤ high) :
    low ≤ Scalar.clamp low high x ∧ Scalar.clamp low high x ≤ high := by
  unfold Scalar.clamp
  split
  · exact ⟨le_refl _, h⟩
  · rename_i hLow
    split
    · exact ⟨h, le_refl _⟩
    · rename_i hHigh
      exact ⟨not_lt.mp hLow, not_lt.mp hHigh⟩

/-- Charging gives no less than there was, and no more than the battery can hold. -/
theorem chargedLevel_between (hLevel : battery ≤ t.params.batteryCapacity) (elapsed : Exact exp) :
    battery ≤ t.chargedLevel battery elapsed ∧ t.chargedLevel battery elapsed ≤ t.params.batteryCapacity := by
  have hLow : Scalar.smaller battery t.params.batteryCapacity = battery := min_eq_left hLevel
  obtain ⟨hAbove, hBelow⟩ := clamp_between (x := t.params.batteryCapacity -
    (t.params.batteryCapacity - battery) * Scalar.exp (-t.params.chargeRate * Scalar.nonNegative elapsed))
    (hLow.trans_le hLevel)
  exact ⟨hLow.symm.trans_le hAbove, hBelow⟩

/-- An accepted travel keeps its account: what the battery loses is what the reported way costs, and what is not covered of
the way is left. -/
theorem accounts_of_travel (hParams : t.params.Feasible) (h : t.travel w robot start goal resume = .ok effects)
    (hApply : w.applyEffects effects = .ok next) (hBattery : w.level? robot .battery = some battery) :
    let route := t.route w robot start goal resume
    ∃ after, route.Accounts t.params battery after ∧ next.level? robot .battery = some after ∧
      route.travelled + (next.level? robot routeRemaining).getD 0 = t.routeLength w robot start goal resume := by
  intro route
  obtain ⟨after, hAccounts⟩ : ∃ after, route.Accounts t.params battery after :=
    route_accounts hParams hBattery (lt_of_depleted? (travel_eq_ok h).2.2.1 hBattery)
  refine ⟨after, hAccounts, (battery_of_travel h hApply).trans hAccounts.batteryAfter, ?_⟩
  rw [← length_route]
  by_cases hArrives : route.arrives = true
  · have hWhole : route.travelled = route.length := le_antisymm hAccounts.travelled_le (of_decide_eq_true hArrives)
    have hNothing : (next.level? robot routeRemaining).getD 0 = 0 := by
      rw [left_of_arrival h hApply hArrives]
      cases w.level? robot routeRemaining <;> rfl
    rw [hNothing, add_zero]
    exact hWhole
  · rw [left_of_short h hApply hArrives]
    exact add_sub_cancel _ _

/-- After a table is prepared a robot has the battery that it had, or a full one. -/
theorem battery_of_prepare {t : Table (Exact exp)} {table : ActionTable (Exact exp)} {w start : World (Exact exp)}
    (h : (ActionTable.robot t).prepare w = .ok (table, start)) (robot : EntityId) :
    start.level? robot .battery = w.level? robot .battery ∨
      start.level? robot .battery = some t.params.batteryCapacity := by
  obtain ⟨-, staged, hStaged, -, rfl⟩ := World.applyEffects_eq_ok_iff.mp (ActionTable.prepare_robot h).2
  by_cases hNew : Effect.setLevel robot .battery t.params.batteryCapacity ∈ (t.prepare w).2
  · refine Or.inr (State.fluent_of_assigned ?_ hStaged (Or.inr ⟨_, hNew, rfl⟩))
    intro effect hEffect hFluent
    obtain ⟨other, -, rfl⟩ := List.mem_map.mp hEffect
    cases hFluent
    rfl
  · refine Or.inl (State.fluent_of_spared ?_ hStaged)
    intro effect hEffect hFluent
    obtain ⟨other, -, rfl⟩ := List.mem_map.mp hEffect
    cases hFluent
    exact hNew hEffect

end Table

-- ---------------------------------------------------------------------------
-- Along a run
-- ---------------------------------------------------------------------------

/-- The battery of a robot, if it has one, is between zero and the capacity. -/
def Charged (p : RobotParams (Exact exp)) (robot : EntityId) (w : World (Exact exp)) : Prop :=
  ∀ level, w.level? robot .battery = some level → 0 ≤ level ∧ level ≤ p.batteryCapacity

variable {t next : Table (Exact exp)} {w after : World (Exact exp)} {event : Event} {robot : EntityId}

/-- A step keeps a battery between zero and the capacity. -/
theorem Charged.step (hParams : t.params.Feasible) (h : Charged t.params robot w) (hStep : Step t w event next after) :
    Charged t.params robot after := by
  intro level hLevel
  rcases hStep.about robot with ⟨-, -, rfl⟩ | ⟨-, -, hLevels⟩ | ⟨clock, action, effects, -, hEnters, hEffects, hApply, -⟩
  · exact h level hLevel
  · exact h level ((hLevels .battery).symm.trans hLevel)
  · cases action with
    | move | pick | drop => cases hEnters
    | travel mover start goal resume =>
      cases hEnters
      cases hBattery : w.level? robot .battery with
      | some battery =>
        obtain ⟨left, hAccounts, hLeft, -⟩ := Table.accounts_of_travel hParams hEffects hApply hBattery
        cases hLeft.symm.trans hLevel
        exact ⟨hParams.depletionThreshold.trans hAccounts.spared, (hAccounts.after_le hParams).trans (h battery hBattery).2⟩
      | none =>
        rw [Table.battery_of_travel hEffects hApply, Table.route, hBattery] at hLevel
        cases hLevel
    | startCharge charger =>
      cases hEnters
      have hKept : after.level? robot .battery = w.level? robot .battery :=
        level?_of_act hEffects hApply nofun nofun
      exact h level (hKept.symm.trans hLevel)
    | stopCharge charger =>
      cases hEnters
      rw [Table.battery_of_stopCharge hEffects hApply] at hLevel
      obtain ⟨battery, hBattery, rfl⟩ := Option.map_eq_some_iff.mp hLevel
      obtain ⟨hNonNegative, hCapacity⟩ := h battery hBattery
      obtain ⟨hMore, hFull⟩ := Table.chargedLevel_between hCapacity (t.chargeElapsed robot clock)
      exact ⟨hNonNegative.trans hMore, hFull⟩

/-- Preparing a table keeps a battery between zero and the capacity. -/
theorem Charged.prepare (hParams : t.params.Feasible) (h : Charged t.params robot w) {table : ActionTable (Exact exp)}
    {start : World (Exact exp)} (hPrepare : (ActionTable.robot t).prepare w = .ok (table, start)) :
    Charged t.params robot start := by
  intro level hLevel
  rcases Table.battery_of_prepare hPrepare robot with hKept | hFull
  · exact h level (hKept.symm.trans hLevel)
  · cases hFull.symm.trans hLevel
    exact ⟨hParams.batteryCapacity.le, le_refl _⟩

end Robot

namespace Simulation

/-- Along a run the battery of a robot that begins between zero and the capacity stays there. -/
theorem run_charged {t : Table (Exact exp)} (hParams : t.params.Feasible) {table : ActionTable (Exact exp)}
    {w start : World (Exact exp)} (hPrepare : (ActionTable.robot t).prepare w = .ok (table, start)) {robot : EntityId}
    (hStart : Charged t.params robot w) (calls : List (SimulationCall (Exact exp))) :
    ∃ last, ((Simulation.mk table start).run calls).table = .robot last ∧ last.params = t.params ∧
      Charged t.params robot ((Simulation.mk table start).run calls).world := by
  refine run_robot (s := ⟨table, start⟩) (motive := fun last w => last.params = t.params ∧ Charged t.params robot w)
    (fun _ => True) ?_ calls (ActionTable.prepare_robot hPrepare).1 ⟨rfl, hStart.prepare hParams hPrepare⟩
    (fun _ _ => trivial)
  rintro earlier _ _ next _ ⟨hEarlier, hCharged⟩ - hStep
  have hNext : next.params = t.params := by
    rw [hStep.table_eq]
    exact hEarlier
  rw [← hEarlier] at hParams hCharged ⊢
  exact ⟨hNext.trans hEarlier.symm, hCharged.step hParams hStep⟩

/-- **Energy is accounted for.** Take a valid configuration, a robot whose battery is between zero and the capacity if it
has one, and any calls, at any times, on the table that is prepared for its world. In exact numbers, and whatever stands
in for the exponential function:

* the battery of the robot is between zero and the capacity;
* an accepted travel of it, a new one or one that resumes, takes from its battery what the reported distance costs, and
  leaves at least the threshold; the reported distance and what is left of the way make up the length that was used;
* an accepted end of charging leaves its battery no lower than it was. -/
theorem run_energy {config : RunConfig (Exact exp)} (hValid : config.IsValid) {table : ActionTable (Exact exp)}
    {w start : World (Exact exp)} (hPrepare : (ActionTable.robot (.ofConfig config)).prepare w = .ok (table, start))
    {robot : EntityId}
    (hStart : ∀ level, w.level? robot .battery = some level → 0 ≤ level ∧ level ≤ config.robot.batteryCapacity)
    (calls : List (SimulationCall (Exact exp))) :
    let s := (Simulation.mk table start).run calls
    (∀ level, s.world.level? robot .battery = some level → 0 ≤ level ∧ level ≤ config.robot.batteryCapacity) ∧
    (∀ origin goal resume timed clock (next : Simulation (Exact exp)) applied battery,
      s.table.dispatch (.robot (.travel robot origin goal resume)) timed s.world clock =
        .ok (next.table, next.world, applied) → s.world.level? robot .battery = some battery →
      ∃ distance after, applied.transition.completion = .distance distance config.robot.moveSpeed ∧
        next.world.level? robot .battery = some after ∧
        after = battery - config.robot.drainRate / config.robot.moveSpeed * distance ∧
        config.robot.depletionThreshold ≤ after ∧
        distance + (next.world.level? robot routeRemaining).getD 0 =
          (Table.ofConfig config).routeLength s.world robot origin goal resume) ∧
    ∀ timed clock (next : Simulation (Exact exp)) applied battery,
      s.table.dispatch (.robot (.stopCharge robot)) timed s.world clock = .ok (next.table, next.world, applied) →
      s.world.level? robot .battery = some battery →
      ∃ after, next.world.level? robot .battery = some after ∧ battery ≤ after := by
  intro s
  have hFirst : Charged (Table.ofConfig config).params robot w := hStart
  obtain ⟨last, hLast, hParams, hCharged⟩ := run_charged hValid.feasible hPrepare hFirst calls
  refine ⟨hCharged, ?_, ?_⟩
  · intro origin goal resume timed clock next applied battery hDispatch hBattery
    rw [hLast] at hDispatch
    rcases ActionTable.dispatch_robot_cases hDispatch with ⟨hWait, -⟩ | ⟨act, effects, hSame, hEffects, hApply, -, hTold⟩
    · cases hWait
    cases hSame
    obtain ⟨after, hAccounts, hAfter, hLength⟩ :=
      Table.accounts_of_travel (hParams ▸ hValid.feasible) hEffects hApply hBattery
    have hDrained := hAccounts.drained
    have hSpared := hAccounts.spared
    rw [hParams] at hDrained hSpared
    refine ⟨_, after, ?_, hAfter, hDrained, hSpared, ?_⟩
    · rw [hTold, Table.transition, hParams]
      rfl
    · rw [hLength, Table.routeLength, hParams]
      rfl
  · intro timed clock next applied battery hDispatch hBattery
    rw [hLast] at hDispatch
    rcases ActionTable.dispatch_robot_cases hDispatch with ⟨hWait, -⟩ | ⟨act, effects, hSame, hEffects, hApply, -, -⟩
    · cases hWait
    cases hSame
    have hCapacity : battery ≤ last.params.batteryCapacity := by
      rw [hParams]
      exact (hCharged battery hBattery).2
    have hAfter := Table.battery_of_stopCharge hEffects hApply
    rw [hBattery] at hAfter
    exact ⟨_, hAfter, (Table.chargedLevel_between hCapacity _).1⟩

/-- A rational function that decays nearly as the exponential function does. -/
def decay (x : ℚ) : ℚ := 1 / (1 - x / 16) ^ 16

/-- A robot stops on its way, charges, and resumes. It has then covered the whole way, and its battery has paid for it. -/
theorem run_energy_of_stopped :
    let config : RunConfig (Exact decay) :=
      ⟨1, 1, 1, ⟨100, 50, 1 / 2⟩, ⟨10, 20, 100, none⟩, ⟨5, 1, 2, 10, 1 / 5, 100⟩⟩
    let setup : List (WorldCall (Exact decay)) :=
      [.declare ⟨"r"⟩ .robot, .declare ⟨"a"⟩ .room, .declare ⟨"b"⟩ .room,
        .applyEffects [.relate ⟨.isAt, ⟨"r"⟩, ⟨"a"⟩⟩, .setLevel ⟨"r"⟩ .battery 14]]
    let w := setup.foldl (fun w call => (w.perform call).1) World.empty
    let call (clock : Exact decay) (name : String) (action : Action) : SimulationCall (Exact decay) :=
      .dispatch (.robot action) ⟨0, 0, name, action.referenced, 1⟩ clock
    let travel : Action := .travel ⟨"r"⟩ ⟨"a"⟩ ⟨"b"⟩ false
    let resumed : Action := .travel ⟨"r"⟩ ⟨"a"⟩ ⟨"b"⟩ true
    let calls := [call 0 "startmove" travel, .finish (.robot travel), call 2 "startcharge" (.startCharge ⟨"r"⟩)]
    config.IsValid ∧ ∃ table start, (ActionTable.robot (.ofConfig config)).prepare w = .ok (table, start) ∧
      let stopped := (Simulation.mk table start).run calls
      let charged := stopped.perform (call 9 "stopcharge" (.stopCharge ⟨"r"⟩))
      let arrived := charged.perform (call 9 "reprisemovement" resumed)
      stopped.world.level? ⟨"r"⟩ .battery = some 10 ∧ stopped.world.level? ⟨"r"⟩ routeRemaining = some 3 ∧
        ∃ battery, charged.world.level? ⟨"r"⟩ .battery = some battery ∧ 10 ≤ battery ∧ battery ≤ 100 ∧
          arrived.world.related? .isAt ⟨"r"⟩ = some ⟨"b"⟩ ∧
            arrived.world.level? ⟨"r"⟩ .battery = some (battery - 2 * 3) := by
  intro config setup w call travel resumed calls
  have hValid : config.IsValid := show config.fault? = none by decide +kernel
  have hPrepare : (ActionTable.robot (.ofConfig config)).prepare w = .ok (_, _) := rfl
  refine ⟨hValid, _, _, hPrepare, ?_⟩
  intro stopped charged arrived
  have hStart : ∀ level, w.level? ⟨"r"⟩ .battery = some level → 0 ≤ level ∧ level ≤ config.robot.batteryCapacity := by
    intro level hLevel
    have hFirst : w.level? ⟨"r"⟩ .battery = some 14 := by decide
    cases hFirst.symm.trans hLevel
    decide
  have hStopped : stopped.world.level? ⟨"r"⟩ .battery = some 10 := by decide +kernel
  have hLeft : stopped.world.level? ⟨"r"⟩ routeRemaining = some 3 := by decide +kernel
  have hRoom : arrived.world.related? .isAt ⟨"r"⟩ = some ⟨"b"⟩ := by decide +kernel
  have hStop : stopped.accepted? (call 9 "stopcharge" (.stopCharge ⟨"r"⟩)) = some (.robot (.stopCharge ⟨"r"⟩)) := by
    decide +kernel
  have hResume : charged.accepted? (call 9 "reprisemovement" resumed) = some (.robot resumed) := by decide +kernel
  obtain ⟨-, -, hCharges⟩ := run_energy hValid hPrepare hStart calls
  obtain ⟨timed, clock, applied, hDispatch⟩ := dispatches_of_accepted? hStop
  obtain ⟨battery, hBattery, hMore⟩ := hCharges timed clock charged applied 10 hDispatch hStopped
  obtain ⟨hBounds, hTravels, -⟩ :=
    run_energy hValid hPrepare hStart (calls ++ [call 9 "stopcharge" (.stopCharge ⟨"r"⟩)])
  have hPrepared := (ActionTable.prepare_robot hPrepare).1
  rw [run_append_robot calls _ hPrepared, run_cons (crash?_of_accepted? hStop)] at hBounds hTravels
  refine ⟨hStopped, hLeft, battery, hBattery, hMore, (hBounds battery hBattery).2, hRoom, ?_⟩
  obtain ⟨timed, clock, applied, hDispatch⟩ := dispatches_of_accepted? hResume
  obtain ⟨distance, after, -, hAfter, hCost, -, hLength⟩ :=
    hTravels ⟨"a"⟩ ⟨"b"⟩ true timed clock arrived applied battery hDispatch hBattery
  -- nothing is left of the way, and so the rest of it is what is paid for
  have hNothing : arrived.world.level? ⟨"r"⟩ routeRemaining = some 0 := by decide +kernel
  have hRest : (Table.ofConfig config).routeLength charged.world ⟨"r"⟩ ⟨"a"⟩ ⟨"b"⟩ true = 3 := by decide +kernel
  have hDistance : distance = 3 := by
    rw [hNothing] at hLength
    exact (add_zero distance).symm.trans (hLength.trans hRest)
  have hRate : config.robot.drainRate / config.robot.moveSpeed = 2 := by decide +kernel
  rw [hAfter, hCost, hRate, hDistance]

end Simulation

end PlanReplay

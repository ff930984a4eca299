import PlanReplay.Proofs.Host.Publish
import PlanReplay.Proofs.Replay.Parameters
import PlanReplay.Proofs.Robot.Energy
import PlanReplay.Proofs.Session.Interval

/-!
# Accepted configurations

The program ends where a time is not to be counted, and where a value is to be brought between two bounds of which the
first is above the second. A configuration that is accepted never leads to such bounds, in no state of a run. The time
between two reports of progress is only required to be positive and finite: one of `2 ^ 64` seconds or more is accepted,
and the program ends over it.

* `Scalar.clamp?`, `Robot.Table.chargedLevel?`, `Elevator.Table.speed?` — what has no result where bounds are not in
  order.
* `ActionTable.Configured.clampsInOrder` — with the parameters of a valid configuration bounds are in order.
* `Session.configure_run` — what a session makes of a configuration.
* `Session.accepted_config` — all of it.
-/

namespace PlanReplay

-- ---------------------------------------------------------------------------
-- Bounds in order
-- ---------------------------------------------------------------------------

section

variable {α : Type} [Scalar α]

/-- A value brought between two bounds, if these are in order. -/
def Scalar.clamp? (low high x : α) : Option α := if low ≤ high then some (clamp low high x) else none

/-- The battery level after a time of charging, if the bounds between which it is brought are in order. -/
def Robot.Table.chargedLevel? (t : Robot.Table α) (level elapsed : α) : Option α :=
  let full := t.params.batteryCapacity
  let missing := (full - level) * Scalar.exp (-t.params.chargeRate * Scalar.nonNegative elapsed)
  Scalar.clamp? (Scalar.smaller level full) full (full - missing)

/-- The speed of an elevator under its load, if the bounds between which the load is brought are in order. -/
def Elevator.Table.speed? (t : Elevator.Table α) (w : World α) (elevator : EntityId) : Option α :=
  let load := (w.level? elevator .load).getD 0
  let ratio? : Option α :=
    match w.level? elevator .maxLoad with
    | some maxLoad => if 0 < maxLoad then Scalar.clamp? 0 1 (load / maxLoad) else some 0
    | none => some 0
  ratio?.map fun ratio => t.params.baseSpeed * (1 - t.params.loadSlowdown * ratio)

/-- Whatever a table brings between two bounds, these are in order, in every world and at every time. -/
def ActionTable.ClampsInOrder : ActionTable α → Prop
  | elevator t => ∀ w elevator, t.speed? w elevator = some (t.speed w elevator)
  | logistics _ => True
  | robot t => ∀ level elapsed, t.chargedLevel? level elapsed = some (t.chargedLevel level elapsed)

theorem Scalar.clamp?_of_le {low high : α} (h : low ≤ high) (x : α) : clamp? low high x = some (clamp low high x) :=
  if_pos h

/-- The bounds of the load of an elevator are constant. -/
theorem Elevator.Table.speed?_eq (h : (0 : α) ≤ 1) (t : Elevator.Table α) (w : World α) (elevator : EntityId) :
    t.speed? w elevator = some (t.speed w elevator) := by
  unfold speed? speed
  cases w.level? elevator .maxLoad with
  | none => rfl
  | some maxLoad =>
    dsimp only
    rw [Scalar.clamp?_of_le h]
    split <;> rfl

end

/-- The level of a battery is brought between itself, or the capacity, and the capacity. -/
theorem Robot.Table.chargedLevel?_eq {t : Robot.Table Float} (h : t.params.batteryCapacity.isFinite = true)
    (level elapsed : Float) : t.chargedLevel? level elapsed = some (t.chargedLevel level elapsed) :=
  Scalar.clamp?_of_le (Double.smaller_le level h) _

-- ---------------------------------------------------------------------------
-- What validation says
-- ---------------------------------------------------------------------------

namespace RunConfig

variable {text : String} {config : RunConfig Float}

theorem isValid_of_ofJson (h : ofJson text = .ok config) : config.IsValid := by
  unfold ofJson at h
  split at h
  · cases h
  · split at h
    · cases h
    · rename_i hValid
      cases h
      exact hValid

/-- The capacity of batteries is finite. -/
theorem IsValid.batteryCapacity (h : config.IsValid) : config.robot.batteryCapacity.isFinite = true := by
  have hRobot := (List.forall_mem_append.mp h.holds).2
  have hCapacity := hRobot ⟨"robot.battery_capacity", .positive, config.robot.batteryCapacity⟩ (by simp)
  exact (Bool.and_eq_true_iff.mp hCapacity).1

/-- The time between two reports is positive and finite, and no more is required of it. -/
theorem IsValid.progressInterval (h : config.IsValid) :
    config.progressInterval.isFinite = true ∧ 0 < config.progressInterval := by
  have hInterval := h.holds ⟨"progress_log_interval_secs", .positive, config.progressInterval⟩ (by simp [requirements])
  obtain ⟨hFinite, hPos⟩ := Bool.and_eq_true_iff.mp hInterval
  exact ⟨hFinite, of_decide_eq_true hPos⟩

end RunConfig

/-- With the parameters of a configuration all bounds are in order, if it has a finite capacity of batteries. -/
theorem ActionTable.Configured.clampsInOrder {config : RunConfig Float} {t : ActionTable Float}
    (h : t.Configured config) (hCapacity : config.robot.batteryCapacity.isFinite = true) : t.ClampsInOrder := by
  cases t with
  | elevator table => exact table.speed?_eq (by decide)
  | logistics table => trivial
  | robot table =>
    have hParams : table.params = config.robot := h
    rw [← hParams] at hCapacity
    exact Robot.Table.chargedLevel?_eq hCapacity

-- ---------------------------------------------------------------------------
-- Sessions
-- ---------------------------------------------------------------------------

namespace Session

variable {text path : String} {config : RunConfig Float} {options : RunOptions} {m : Machine}

/-- An outcome that has a result is that result. -/
theorem ok_of_toOption {ε τ : Type} {outcome : Except ε τ} {result : τ} (h : outcome.toOption = some result) :
    outcome = .ok result := by
  cases outcome with
  | error _ => cases h
  | ok _ => exact congrArg Except.ok (Option.some.inj h)

/-- The configuration of a session is read from the file that is asked for. -/
theorem loadConfig_run (hRead : m.tree.readFile path = .ok text) (hText : RunConfig.ofJson text = .ok config) :
    (loadConfig path).run.runOn m = (.ok config, m) := by
  have hReply : Machine.reply (.readFile path) m = (.ok text, m) := congrArg (·, m) hRead
  have hFile : (attempt (.unreadableConfig path) (.request (.readFile path))).run.runOn m = (.ok text, m) := by
    change (Script.request (.readFile path) >>= _).runOn m = _
    rw [Script.runOn_bind, Script.runOn_request, hReply]
    rfl
  unfold loadConfig
  rw [ExceptT.run_bind, Script.runOn_bind, hFile]
  change ((attemptPure .config (RunConfig.ofJson text)).run).runOn m = _
  rw [hText]
  rfl

/-- A session takes over the configuration that it reads, with its own speed, unless the program ends over the time
between two reports. Nothing is written or printed. -/
theorem configure_run (env : Environment) (hPath : options.config = some path)
    (hRead : m.tree.readFile path = .ok text) (hText : RunConfig.ofJson text = .ok config) :
    (configure env options).run.runOn m =
      (if uncountableSeconds ≤ config.progressInterval then .error (.crashed (.uncountableInterval config.progressInterval))
        else .ok { config with speed := (speed? env options).getD config.speed }, m) := by
  unfold configure
  rw [hPath]
  dsimp only
  rw [ExceptT.run_bind, Script.runOn_bind, loadConfig_run hRead hText]
  dsimp only
  split <;> rfl

/-- **What an accepted configuration does to a session.** Take a configuration that is accepted.

* A session that reads it takes it over, with its own speed, if the time between two reports can be counted, and otherwise
  the program ends; either way nothing is written or printed.
* The time between two reports can be counted iff it is below `2 ^ 64` seconds.
* The length of a tick can be counted at every rate, and at sixty a second it is that of the host loop.
* In every state of every run, at whatever speed, all that is brought between two bounds has bounds that are in order: the
  level of a battery that is charged, and the load of an elevator. -/
theorem accepted_config (hText : RunConfig.ofJson text = .ok config) :
    (∀ (env : Environment) (options : RunOptions) (path : String) (m : Machine), options.config = some path →
      m.tree.readFile path = .ok text →
      (configure env options).run.runOn m =
        (match nanosOfSeconds? config.progressInterval with
          | some _ => .ok { config with speed := (speed? env options).getD config.speed }
          | none => .error (.crashed (.uncountableInterval config.progressInterval)), m)) ∧
    ((nanosOfSeconds? config.progressInterval).isSome = true ↔ config.progressInterval < uncountableSeconds) ∧
    (∀ rate < 2 ^ 32, (nanosOfSeconds? (1 / Float.ofNat (max rate 1))).isSome = true) ∧
    nanosOfSeconds? (1 / 60) = some tickNanos ∧
    ∀ (speed : Float) (selection : Selection) (problem : Problem) (plan : Plan Float) (run : Run),
      Run.ofPlan { config with speed := speed } selection problem plan = .ok run →
      ∀ t, run.timeline.Reaches t → t.table.ClampsInOrder := by
  have hValid := RunConfig.isValid_of_ofJson hText
  obtain ⟨hFinite, hPos⟩ := hValid.progressInterval
  have hNonneg : 0 ≤ config.progressInterval := Double.le_of_lt hPos
  refine ⟨?_, isSome_nanosOfSeconds? hFinite hNonneg, fun rate => isSome_tickLength, nanosOfSeconds?_sixtieth, ?_⟩
  · intro env options path m hPath hRead
    rw [configure_run env hPath hRead hText]
    congr 1
    have hLong := nanosOfSeconds?_eq_none_iff hFinite hNonneg
    cases hNanos : nanosOfSeconds? config.progressInterval with
    | none => exact if_pos (hLong.mp hNanos)
    | some nanos =>
      rw [hNanos] at hLong
      exact if_neg fun hReached => Option.some_ne_none nanos (hLong.mpr hReached)
  · intro speed selection problem plan run hRun t hReaches
    exact (Run.configured_of_reaches hRun hReaches).clampsInOrder hValid.batteryCapacity

/-- With an interval of two seconds and a half and a small battery, a session takes the configuration over, and while a
robot charges its level has bounds in order. -/
theorem accepted_config_of_small_battery :
    let text := r#"{"progress_log_interval_secs": 2.5, "robot": {"battery_capacity": 12.5}}"#
    let config : RunConfig Float :=
      { RunConfig.default with progressInterval := 2.5, robot := { RunConfig.default.robot with batteryCapacity := 12.5 } }
    let m := Machine.fresh (.put ⟨[], .empty⟩ ["run.json"] (.file text)) fun _ _ => .error (.unavailable "")
    let options := { RunOptions.ofProblem "p.json" with config := some "run.json", speed := some 4 }
    let problem : Problem :=
      ⟨"sweep", "robot", [⟨"r1", "robot"⟩, ⟨"room1", "room"⟩], [⟨"at-robby", ["r1", "room1"]⟩], [], []⟩
    RunConfig.ofJson text = .ok config ∧ nanosOfSeconds? config.progressInterval = some 2500000000 ∧
      (configure ⟨none, none, "/", 7⟩ options).run.runOn m = (.ok { config with speed := 4 }, m) ∧
      ∃ run, Run.ofPlan { config with speed := 4 } ⟨.robot, .event, by decide⟩ problem
          (.ofText 1 "0: (startcharge r1)") = .ok run ∧
        (run.timeline.step 2).1.table.phase? ⟨"r1"⟩ = some .charging ∧ (run.timeline.step 2).1.table.ClampsInOrder := by
  intro text config m options problem
  have hText : RunConfig.ofJson text = .ok config := ok_of_toOption (by decide +kernel)
  have hRead : m.tree.readFile "run.json" = .ok text := by decide
  have hNanos : nanosOfSeconds? config.progressInterval = some 2500000000 := by decide
  obtain ⟨hTakenOver, -, -, -, hBounds⟩ := accepted_config hText
  have hSession := hTakenOver ⟨none, none, "/", 7⟩ options "run.json" m rfl hRead
  rw [hNanos] at hSession
  have hCharges : (Run.ofPlan { config with speed := 4 } ⟨.robot, .event, by decide⟩ problem
      (.ofText 1 "0: (startcharge r1)")).toOption.any (fun run =>
        decide ((run.timeline.step 2).1.table.phase? ⟨"r1"⟩ = some .charging)) = true := by decide +kernel
  obtain ⟨run, hRun, hCharging⟩ := (Option.any_eq_true _ _).mp hCharges
  have hOrder := hBounds 4 _ problem _ run (ok_of_toOption hRun) _ (.call .here (.step 2))
  exact ⟨hText, hNanos, hSession, run, ok_of_toOption hRun, of_decide_eq_true hCharging, hOrder⟩

/-- An interval of `1e20` seconds is accepted, and the program ends over it. -/
theorem accepted_config_of_long_interval :
    let text := r#"{"progress_log_interval_secs": 1e20}"#
    let config : RunConfig Float := { RunConfig.default with progressInterval := 1e20 }
    let m := Machine.fresh (.put ⟨[], .empty⟩ ["run.json"] (.file text)) fun _ _ => .error (.unavailable "")
    let options := { RunOptions.ofProblem "p.json" with config := some "run.json" }
    RunConfig.ofJson text = .ok config ∧ nanosOfSeconds? config.progressInterval = none ∧
      (configure ⟨none, none, "/", 7⟩ options).run.runOn m =
        (.error (.crashed (.uncountableInterval 1e20)), m) := by
  intro text config m options
  have hText : RunConfig.ofJson text = .ok config := ok_of_toOption (by decide +kernel)
  have hRead : m.tree.readFile "run.json" = .ok text := by decide
  have hPath : options.config = some "run.json" := rfl
  refine ⟨hText, by decide, ?_⟩
  rw [configure_run _ hPath hRead hText, if_pos (by decide)]

end Session

end PlanReplay

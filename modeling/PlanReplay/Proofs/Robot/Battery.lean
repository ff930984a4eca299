import PlanReplay.Proofs.Double
import PlanReplay.Proofs.Robot.Run

/-!
# Robots without power

A hop does not look at the phase of its robot, only at its battery; a travel looks at both. That a robot which has
stopped for want of power stays where it is rests on an agreement between the two: where the phase says that the robot
has stopped, or that its travel will stop, the battery is at the threshold, and nothing but the end of charging brings
it up again.

* `Robot.Table.battery_of_short` — a travel that does not arrive leaves the battery at the threshold.
* `Robot.Drained` — the phase and the battery agree; `Robot.Drained.step`, `Simulation.run_drained` — they do so along
  every run.
* `Robot.Grounded` — a robot that cannot move before it ends charging; `Robot.Grounded.step`.
* `Simulation.run_battery_dead` — the whole law.
-/

namespace PlanReplay

namespace Robot

-- ---------------------------------------------------------------------------
-- Travels that do not arrive
-- ---------------------------------------------------------------------------

namespace Table

variable {t : Table Float} {w next : World Float} {robot start goal : EntityId} {resume : Bool}
  {effects : List (Effect Float)}

/-- A travel of less than its length goes on until the battery is at the threshold. -/
theorem route_batteryAfter
    (h : (t.route w robot start goal resume).travelled ≠ (t.route w robot start goal resume).length) :
    (t.route w robot start goal resume).batteryAfter = some t.params.depletionThreshold := by
  revert h
  unfold route
  dsimp only
  split
  · exact fun h => absurd rfl h
  · split
    · exact fun h => absurd rfl h
    · exact fun _ => rfl

/-- A travel that covers a finite length arrives. -/
theorem arrives_of_travelled {route : Route Float} (hFinite : (route.length - route.travelled).isFinite = true)
    (h : route.travelled = route.length) : route.arrives = true := by
  rw [h] at hFinite
  unfold Route.arrives
  rw [h]
  exact decide_eq_true (Double.le_refl_of_finite (Double.finite_of_sub hFinite).1)

/-- An accepted travel that does not arrive leaves the battery at the threshold. -/
theorem battery_of_short (h : t.travel w robot start goal resume = .ok effects)
    (hApply : w.applyEffects effects = .ok next) (hSound : next.Sound)
    (hShort : ¬ (t.route w robot start goal resume).arrives = true) :
    next.level? robot .battery = some t.params.depletionThreshold := by
  rw [battery_of_travel h hApply]
  refine route_batteryAfter fun hSame => hShort ?_
  -- what is left of the way is noted, and so it is a number
  exact arrives_of_travelled (hSound.state.finite _ _ (left_of_short h hApply hShort)) hSame

end Table

-- ---------------------------------------------------------------------------
-- Phase and battery
-- ---------------------------------------------------------------------------

/-- A robot has stopped for want of power, or is about to. -/
def Status.Stopped (s : Status Float) : Prop := s.phase = .batteryDead ∨ s.landing = some .batteryDead

/-- Whoever has stopped after landing was about to before. -/
theorem Status.stopped_of_landed {s : Status Float} (h : s.landed.Stopped) : s.Stopped := by
  rcases h with hPhase | hLanding
  · unfold landed at hPhase
    cases hFlight : s.landing with
    | none =>
      rw [hFlight] at hPhase
      exact Or.inl hPhase
    | some phase =>
      rw [hFlight] at hPhase
      exact Or.inr (hFlight.trans (congrArg some hPhase))
  · cases hLanding

theorem Status.Coherent.phase_of_stopped {s : Status Float} (h : s.Coherent) (hStopped : s.Stopped) :
    s.phase = .batteryDead ∨ s.phase = .moving := by
  rcases hStopped with hPhase | hLanding
  · exact Or.inl hPhase
  · exact Or.inr (h.lands.mp (by rw [hLanding]; rfl))

variable {params : RobotParams Float} {t next : Table Float} {w after : World Float} {event : Event}
  {robot : EntityId}

/-- The battery of whoever has stopped, or is about to, is at the threshold. -/
def Drained (t : Table Float) (w : World Float) : Prop :=
  ∀ robot, (t.status robot).Stopped → w.level? robot .battery = some t.params.depletionThreshold

/-- A step keeps the agreement of phase and battery. -/
theorem Drained.step (hFit : Fit params t w) (h : Drained t w) (hStep : Step t w event next after) :
    Drained next after := by
  intro robot hStopped
  have hNext := hFit.step hStep
  rw [hNext.params.trans hFit.params.symm]
  have hPhase := (hNext.coherent robot).phase_of_stopped hStopped
  rcases hStep.about robot with ⟨-, hLanded, rfl⟩ | ⟨-, hStatus, hLevels⟩ | ⟨clock, action, effects, -, hEnters, hAct⟩
  · rw [hLanded] at hStopped
    exact h robot (Status.stopped_of_landed hStopped)
  · rw [hStatus] at hStopped
    rw [hLevels]
    exact h robot hStopped
  · obtain ⟨hEffects, hApply, rfl⟩ := hAct
    cases action with
    | move | pick | drop => cases hEnters
    | travel mover start goal resume =>
      cases hEnters
      refine Table.battery_of_short hEffects hApply hNext.sound ?_
      -- a travel that arrives is about to arrive, not to stop
      intro hArrives
      have hThere := (Table.holds_goal_iff hFit.sound hEffects hApply).mpr (Or.inl hArrives)
      rw [Table.commit, Table.status_enter, if_pos rfl, hThere] at hStopped
      rcases hStopped with hDead | hLanding
      · cases hDead
      · cases hLanding
    | startCharge charger | stopCharge charger =>
      cases hEnters
      rw [Table.commit, Table.status_enter, if_pos rfl] at hPhase
      rcases hPhase with hDead | hMoving
      · cases hDead
      · cases hMoving

/-- Before the first step nobody has stopped. -/
theorem drained_prepare (t : Table Float) (w start : World Float) : Drained (t.prepare w).1 start := by
  intro robot hStopped
  rw [Table.status_prepare] at hStopped
  rcases hStopped with hDead | hLanding
  · cases hDead
  · cases hLanding

-- ---------------------------------------------------------------------------
-- Until charging ends
-- ---------------------------------------------------------------------------

/-- A robot whose battery is at the threshold, and which has stopped or has begun to charge after it stopped. -/
def Grounded (robot : EntityId) (t : Table Float) (w : World Float) : Prop :=
  (t.phase robot = .batteryDead ∨ t.phase robot = .charging) ∧
    w.level? robot .battery = some t.params.depletionThreshold

/-- A grounded robot is accepted for no hop and for no travel. -/
theorem Grounded.not_goes (hFit : Fit params t w) (h : Grounded robot t w) {clock : Float} {action : Action}
    (hGoes : action.goes? = some robot) (effects : List (Effect Float)) : t.effects w clock action ≠ .ok effects := by
  have hDepleted : t.depleted? w robot ≠ none := by
    have hFinite := hFit.sound.state.finite _ _ h.2
    unfold Table.depleted?
    rw [h.2]
    dsimp only
    rw [if_pos (Double.le_refl_of_finite hFinite)]
    exact nofun
  intro hEffects
  cases action with
  | move mover start goal =>
    cases hGoes
    exact hDepleted (Table.move_eq_ok hEffects).2.2.1
  | travel mover start goal resume =>
    cases hGoes
    exact hDepleted (Table.travel_eq_ok hEffects).2.2.1
  | pick | drop | startCharge | stopCharge => cases hGoes

/-- A step that does not end charging keeps a grounded robot grounded. -/
theorem Grounded.step (hFit : Fit params t w) (h : Grounded robot t w) (hStep : Step t w event next after)
    (hStays : event ≠ .act (.stopCharge robot)) : Grounded robot next after := by
  have hParams : next.params = t.params := (hFit.step hStep).params.trans hFit.params.symm
  have hLanding : (t.status robot).landing = none := by
    refine (hFit.coherent robot).landing_eq_none ?_
    intro hMoving
    rcases h.1 with hDead | hCharging
    · cases hDead.symm.trans hMoving
    · cases hCharging.symm.trans hMoving
  rcases hStep.about robot with ⟨-, hLanded, rfl⟩ | ⟨-, hStatus, hLevels⟩ | ⟨clock, action, effects, rfl, hEnters, hAct⟩
  · rw [Grounded, Table.phase, hLanded, Status.landed_of_none hLanding, hParams]
    exact h
  · rw [Grounded, Table.phase, hStatus, hLevels, hParams]
    exact h
  · obtain ⟨hEffects, hApply, rfl⟩ := hAct
    cases action with
    | move | pick | drop => cases hEnters
    | travel mover start goal resume =>
      cases hEnters
      exact absurd hEffects (h.not_goes hFit rfl effects)
    | startCharge charger =>
      cases hEnters
      have hKept : after.level? robot .battery = w.level? robot .battery :=
        level?_of_act hEffects hApply (by simp [Action.traveller?]) (by simp)
      rw [Grounded, Table.commit, Table.phase_enter, if_pos rfl, hKept]
      exact ⟨Or.inr rfl, h.2⟩
    | stopCharge charger =>
      cases hEnters
      exact absurd rfl hStays

end Robot

-- ---------------------------------------------------------------------------
-- Runs
-- ---------------------------------------------------------------------------

namespace Simulation

open Robot

/-- Along a run the phases and the batteries of robots agree. -/
theorem run_drained {t : Robot.Table Float} {table : ActionTable Float} {w start : World Float}
    (hReachable : w.Reachable) (hPrepare : (ActionTable.robot t).prepare w = .ok (table, start))
    (calls : List (SimulationCall Float)) :
    ∃ last, ((Simulation.mk table start).run calls).table = .robot last ∧
      Fit t.params last ((Simulation.mk table start).run calls).world ∧
      Drained last ((Simulation.mk table start).run calls).world := by
  obtain ⟨hTable, hFit⟩ := fit_of_prepare hReachable.sound hPrepare
  refine run_robot (motive := fun last w => Fit t.params last w ∧ Drained last w) (fun _ => True) ?_ calls hTable
    ⟨hFit, drained_prepare t w start⟩ (fun _ _ => trivial)
  rintro _ _ _ _ _ ⟨hFit, hDrained⟩ - hStep
  exact ⟨hFit.step hStep, hDrained.step hFit hStep⟩

/--
**A dead battery blocks all moves.** Take any calls on a table of robots that was prepared for a reachable world, and
a robot whose phase after them is that of a dead battery. Its battery is at the threshold. After any further calls, as
long as no end of charging of this robot has been accepted, every hop and every travel of it is rejected, at any time,
and leaves the table and the world as they are.
-/
theorem run_battery_dead {t : Robot.Table Float} {table : ActionTable Float} {w start : World Float}
    (hReachable : w.Reachable) (hPrepare : (ActionTable.robot t).prepare w = .ok (table, start))
    (calls : List (SimulationCall Float)) (robot : EntityId)
    (hDead : ((Simulation.mk table start).run calls).table.phase? robot = some .batteryDead) :
    let stopped := (Simulation.mk table start).run calls
    stopped.world.level? robot .battery = some t.params.depletionThreshold ∧
      ∀ more, .robot (.stopCharge robot) ∉ stopped.accepted more → ∀ action : Robot.Action, action.goes? = some robot →
        ∀ timed clock,
          (∃ rejection, (stopped.run more).table.dispatch (.robot action) timed (stopped.run more).world clock =
            .error (.refused rejection)) ∧
          (stopped.run more).perform (.dispatch (.robot action) timed clock) = stopped.run more := by
  intro stopped
  obtain ⟨last, hLast, hFit, hDrained⟩ := run_drained hReachable hPrepare calls
  have hPhase : last.phase robot = .batteryDead := by
    rw [hLast] at hDead
    exact Option.some.inj hDead
  have hBattery := hDrained robot (Or.inl hPhase)
  refine ⟨hBattery.trans (congrArg (fun p => some p.depletionThreshold) hFit.params), ?_⟩
  intro more hStays action hGoes timed clock
  -- whatever is done meanwhile, the robot stays grounded
  obtain ⟨later, hLater, hFitLater, hGrounded⟩ :
      ∃ later, (stopped.run more).table = .robot later ∧ Fit t.params later (stopped.run more).world ∧
        Grounded robot later (stopped.run more).world := by
    refine run_robot (motive := fun later w => Fit t.params later w ∧ Grounded robot later w)
      (fun event => event ≠ .act (.stopCharge robot)) ?_ more hLast ⟨hFit, Or.inl hPhase, hBattery⟩ ?_
    · rintro _ _ _ _ _ ⟨hFit, hGrounded⟩ hOther hStep
      exact ⟨hFit.step hStep, hGrounded.step hFit hStep hOther⟩
    · rintro _ hEvent rfl
      exact hStays (mem_accepted_of_event more hLast hEvent)
  exact rejected_robot hLater (hGrounded.not_goes hFitLater hGoes) timed

/-- A robot stops on the way. Another one goes on, and the first one begins to charge; it still goes nowhere. -/
theorem run_battery_dead_of_two_robots :
    let p : Problem := ⟨"sweep", "robot", [⟨"r", "robot"⟩, ⟨"s", "robot"⟩, ⟨"a", "room"⟩, ⟨"b", "room"⟩],
      [⟨"at-robby", ["r", "a"]⟩, ⟨"at-robby", ["s", "a"]⟩], [⟨"battery", ["r"], 14⟩], []⟩
    let t : Robot.Table Float := .ofConfig .default
    let call (name : String) (action : Robot.Action) : SimulationCall Float :=
      .dispatch (.robot action) ⟨0, 0, name, action.referenced, 1⟩ 0
    let travel : Robot.Action := .travel ⟨"r"⟩ ⟨"a"⟩ ⟨"b"⟩ false
    let calls := [call "startmove" travel, .finish (.robot travel)]
    let more := [call "move" (.move ⟨"s"⟩ ⟨"a"⟩ ⟨"b"⟩), call "startcharge" (.startCharge ⟨"r"⟩), .settle]
    ∃ w table start, World.ofProblem p = .ok w ∧ w.Reachable ∧ (ActionTable.robot t).prepare w = .ok (table, start) ∧
      let stopped := (Simulation.mk table start).run calls
      let later := stopped.run more
      stopped.table.phase? ⟨"r"⟩ = some .batteryDead ∧ stopped.world.level? ⟨"r"⟩ .battery = some 10 ∧
        stopped.accepted more = [.robot (.move ⟨"s"⟩ ⟨"a"⟩ ⟨"b"⟩), .robot (.startCharge ⟨"r"⟩)] ∧
        later.table.phase? ⟨"r"⟩ = some .charging ∧
        later.perform (call "move" (.move ⟨"r"⟩ ⟨"a"⟩ ⟨"b"⟩)) = later := by
  intro p t call travel calls more
  have hRun : (ofProblem? p (.robot t)).any (fun begun => decide (
      (begun.2.run calls).table.phase? ⟨"r"⟩ = some .batteryDead ∧
      (begun.2.run calls).accepted more = [.robot (.move ⟨"s"⟩ ⟨"a"⟩ ⟨"b"⟩), .robot (.startCharge ⟨"r"⟩)] ∧
      ((begun.2.run calls).run more).table.phase? ⟨"r"⟩ = some .charging)) = true := by
    decide
  obtain ⟨w, table, start, hWorld, hPrepare, hFacts⟩ := exists_of_ofProblem? hRun
  obtain ⟨hDead, hAccepted, hCharging⟩ := of_decide_eq_true hFacts
  have hReachable : w.Reachable := .ofProblem hWorld
  obtain ⟨hBattery, hBlocked⟩ := run_battery_dead hReachable hPrepare calls ⟨"r"⟩ hDead
  refine ⟨w, table, start, hWorld, hReachable, hPrepare, hDead, hBattery, hAccepted, hCharging, ?_⟩
  refine (hBlocked more ?_ (.move ⟨"r"⟩ ⟨"a"⟩ ⟨"b"⟩) rfl ⟨0, 0, "move", [⟨"r"⟩, ⟨"a"⟩, ⟨"b"⟩], 1⟩ 0).2
  rw [hAccepted]
  decide

end Simulation

end PlanReplay

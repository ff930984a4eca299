import PlanReplay.Proofs.Robot.Battery

/-!
# Where travels end

Whether a travel arrives is decided more than once. The route decides it before the action, for the effects and for the
transition that is reported; afterwards the world decides in which phase the travel lands, by whether the robot is in
the room it travels to. Between two rooms these are the same. A robot that travels to the room where it is never leaves it,
and so it always lands as one that has arrived, whatever the route says.

* `Robot.Table.landing_tells` — the phase that is set for the landing, and the end that is reported.
* `Robot.landing_of_step`, `Simulation.phase_of_landed` — what is to land stays so until it lands.
* `Simulation.run_landing` — the phase in which a travel lands, and the end that was reported.
* `Simulation.run_landing_of_round_trip` — a travel to the same room is reported to stop, and lands as arrived.
-/

namespace PlanReplay

namespace Robot

section

variable {α : Type} [Scalar α] {t next : Table α} {w after : World α} {robot : EntityId}

/-- The phase that is set for the landing of an accepted travel is that of the end that is reported, unless the travel
goes to the room where the robot is. -/
theorem Table.landing_tells {room goal : EntityId} {resume : Bool} {effects : List (Effect α)} (hSound : w.Sound)
    (hEffects : t.travel w robot room goal resume = .ok effects) (hApply : w.applyEffects effects = .ok after)
    (a : TimedAction α) (clock : α) :
    let landing := if after.holds ⟨.isAt, robot, goal⟩ then RobotPhase.arrived else .batteryDead
    let reported := (t.transition w a clock (.travel robot room goal resume)).goal
    (landing = .arrived ↔ reported = .entity goal ∨ room = goal) ∧
      (landing = .batteryDead ↔ (∃ fraction, reported = .between room goal fraction) ∧ room ≠ goal) := by
  have hGoal := holds_goal_iff hSound hEffects hApply
  dsimp only [transition]
  by_cases hArrives : (t.route w robot room goal resume).arrives = true
  · rw [if_pos (hGoal.mpr (Or.inl hArrives)), if_pos hArrives]
    simp
  · rw [if_neg hArrives]
    by_cases hRound : room = goal
    · rw [if_pos (hGoal.mpr (Or.inr hRound))]
      simp [hRound]
    · rw [if_neg fun hThere => (hGoal.mp hThere).elim hArrives hRound]
      simp [hRound]

/-- A travel in flight lands in the phase that was set for it: no action that is accepted before changes it. -/
theorem landing_of_step {params : RobotParams α} {event : Event} {phase : RobotPhase} (hFit : Fit params t w)
    (hLanding : (t.status robot).landing = some phase) (hStep : Step t w event next after)
    (hStays : ¬ event.Lands robot) : (next.status robot).landing = some phase := by
  have hMoving : t.phase robot = .moving := (hFit.coherent robot).lands.mp (by rw [hLanding]; rfl)
  rcases hStep.about robot with ⟨hLands, -⟩ | ⟨-, hStatus, -⟩ | ⟨clock, action, effects, -, hEnters, hEffects, -⟩
  · exact absurd hLands hStays
  · rw [hStatus]
    exact hLanding
  · -- a robot on the way is accepted for nothing that changes its phase
    obtain ⟨hTravel, hStart, hStop⟩ := Table.phase_of_effects hEffects
    cases action with
    | move | pick | drop => cases hEnters
    | travel mover room goal resume =>
      cases hEnters
      rcases hTravel _ _ _ _ rfl with hIdle | hArrived
      · cases hIdle.symm.trans hMoving
      · cases hArrived.symm.trans hMoving
    | startCharge charger =>
      cases hEnters
      exact absurd hMoving (hStart _ rfl).2
    | stopCharge charger =>
      cases hEnters
      cases (hStop _ rfl).symm.trans hMoving

end

end Robot

namespace Simulation

open Robot

/-- Whatever is called before it lands, a travel lands in the phase that was set for it. -/
theorem phase_of_landed {α : Type} [Scalar α] {params : RobotParams α} {s : Simulation α} {t : Robot.Table α}
    {robot : EntityId} {phase : RobotPhase} (hTable : s.table = .robot t) (hFit : Fit params t s.world)
    (hLanding : (t.status robot).landing = some phase) {between : List (SimulationCall α)}
    (hBetween : ∀ event ∈ s.events between, ¬ event.Lands robot) {call : SimulationCall α}
    (hLands : ((s.run between).event call).Lands robot) :
    ((s.run between).perform call).table.phase? robot = some phase := by
  obtain ⟨later, hLater, -, hKept⟩ := run_robot
    (motive := fun later w => Fit params later w ∧ (later.status robot).landing = some phase)
    (fun event => ¬ event.Lands robot)
    (fun h hStays hStep => ⟨h.1.step hStep, landing_of_step h.1 h.2 hStep hStays⟩) between hTable
    ⟨hFit, hLanding⟩ hBetween
  obtain ⟨landed, hLanded, hStep⟩ := perform_robot hLater call
  rw [hLanded, ActionTable.phase?, Table.phase]
  rcases hStep.about robot with ⟨-, hStatus, -⟩ | ⟨hNot, -⟩ | ⟨_, _, _, hAct, -⟩
  · rw [hStatus, Status.landed, hKept, Option.getD_some]
  · exact absurd hLands hNot
  · rw [hAct] at hLands
    exact hLands.elim

/--
**Where a travel lands.** Take any calls on a table of robots that was prepared for a reachable world, and an accepted
travel after them. Whatever is called then, and when at last a call lands the travel, the robot has arrived iff the
reported end of the transition is the room that it travels to, or it travels to the room where it is; and it has stopped
for want of power iff the reported end lies between two different rooms.
-/
theorem run_landing {t : Robot.Table Float} {table : ActionTable Float} {w start : World Float}
    (hReachable : w.Reachable) (hPrepare : (ActionTable.robot t).prepare w = .ok (table, start))
    (calls : List (SimulationCall Float)) {robot room goal : EntityId} {resume : Bool} {timed : TimedAction Float}
    {clock : Float} {next : Simulation Float} {applied : Applied Float}
    (hDispatch : ((Simulation.mk table start).run calls).table.dispatch (.robot (.travel robot room goal resume)) timed
      ((Simulation.mk table start).run calls).world clock = .ok (next.table, next.world, applied))
    (between : List (SimulationCall Float)) (hBetween : ∀ event ∈ next.events between, ¬ event.Lands robot)
    (call : SimulationCall Float) (hLands : ((next.run between).event call).Lands robot) :
    let phase? := ((next.run between).perform call).table.phase? robot
    (phase? = some .arrived ↔ applied.transition.goal = .entity goal ∨ room = goal) ∧
      (phase? = some .batteryDead ↔
        (∃ fraction, applied.transition.goal = .between room goal fraction) ∧ room ≠ goal) := by
  intro phase?
  obtain ⟨last, hLast, hFit, -⟩ := run_drained hReachable hPrepare calls
  rw [hLast] at hDispatch
  rcases ActionTable.dispatch_robot_cases hDispatch with
    ⟨hWait, -⟩ | ⟨act, effects, hSame, hEffects, hApply, hNext, hTransition⟩
  · cases hWait
  cases hSame
  have hLanding : ((last.commit next.world clock (.travel robot room goal resume)).1.status robot).landing =
      some (if next.world.holds ⟨.isAt, robot, goal⟩ then .arrived else .batteryDead) := by
    rw [Table.commit, Table.status_enter, if_pos rfl]
  have hPhase := phase_of_landed hNext (hFit.step (.act hEffects hApply)) hLanding hBetween hLands
  simp only [phase?, hPhase, hTransition, Option.some.injEq]
  exact Table.landing_tells hFit.sound hEffects hApply timed clock

/-- A robot sets off with too little power, and stops after two fifths of the way. Meanwhile another one sets off and
arrives. -/
theorem run_landing_of_two_robots :
    let p : Problem := ⟨"sweep", "robot", [⟨"r", "robot"⟩, ⟨"s", "robot"⟩, ⟨"a", "room"⟩, ⟨"b", "room"⟩],
      [⟨"at-robby", ["r", "a"]⟩, ⟨"at-robby", ["s", "b"]⟩], [⟨"battery", ["r"], 14⟩], []⟩
    let t : Robot.Table Float := .ofConfig .default
    let travel : Robot.Action := .travel ⟨"r"⟩ ⟨"a"⟩ ⟨"b"⟩ false
    let other : Robot.Action := .travel ⟨"s"⟩ ⟨"b"⟩ ⟨"a"⟩ false
    let timed (action : Robot.Action) : TimedAction Float := ⟨0, 0, "startmove", action.referenced, 1⟩
    let between := [.dispatch (.robot other) (timed other) 0, .finish (.robot other)]
    ∃ w table start applied, World.ofProblem p = .ok w ∧ w.Reachable ∧
      (ActionTable.robot t).prepare w = .ok (table, start) ∧
      let first : Simulation Float := ⟨table, start⟩
      let next := first.perform (.dispatch (.robot travel) (timed travel) 0)
      let last := next.run between
      first.table.dispatch (.robot travel) (timed travel) first.world 0 = .ok (next.table, next.world, applied) ∧
        (∀ event ∈ next.events between, ¬ event.Lands ⟨"r"⟩) ∧ (last.event (.finish (.robot travel))).Lands ⟨"r"⟩ ∧
        applied.transition.goal = .between ⟨"a"⟩ ⟨"b"⟩ 0.4 ∧
        (last.perform (.finish (.robot travel))).table.phase? ⟨"r"⟩ = some .batteryDead := by
  intro p t travel other timed between
  have hRun : (ofProblem? p (.robot t)).any (fun begun => decide (
      (begun.2.reported? (.dispatch (.robot travel) (timed travel) 0)).map (fun applied => applied.transition.goal) =
        some (.between ⟨"a"⟩ ⟨"b"⟩ 0.4) ∧
      ∀ event ∈ (begun.2.perform (.dispatch (.robot travel) (timed travel) 0)).events between,
        ¬ event.Lands ⟨"r"⟩)) = true := by
    decide +kernel
  obtain ⟨w, table, start, hWorld, hPrepare, hFacts⟩ := exists_of_ofProblem? hRun
  obtain ⟨hReported, hBetween⟩ := of_decide_eq_true hFacts
  obtain ⟨applied, hApplied, hGoal⟩ := Option.map_eq_some_iff.mp hReported
  have hReachable : w.Reachable := .ofProblem hWorld
  have hDispatch := dispatch_of_reported? hApplied
  have hLands : ∀ s : Simulation Float, (s.event (.finish (.robot travel))).Lands ⟨"r"⟩ := fun _ => rfl
  have hStopped := (run_landing hReachable hPrepare [] hDispatch between hBetween (.finish (.robot travel))
    (hLands _)).2.mpr ⟨⟨0.4, hGoal⟩, by decide⟩
  exact ⟨w, table, start, applied, hWorld, hReachable, hPrepare, hDispatch, hBetween, hLands _, hGoal, hStopped⟩

/-- A robot with too little power travels to the room where it is. The reported end lies on the way, and what is left of
the way is noted; but the travel lands as one that has arrived. -/
theorem run_landing_of_round_trip :
    let p : Problem := ⟨"sweep", "robot", [⟨"r1", "robot"⟩, ⟨"room1", "room"⟩], [⟨"at-robby", ["r1", "room1"]⟩],
      [⟨"battery", ["r1"], 14⟩], []⟩
    let travel : Robot.Action := .travel ⟨"r1"⟩ ⟨"room1"⟩ ⟨"room1"⟩ false
    let timed : TimedAction Float := ⟨0, 0, "startmove", travel.referenced, 1⟩
    ∃ w table start applied, World.ofProblem p = .ok w ∧
      (ActionTable.robot (.ofConfig .default)).prepare w = .ok (table, start) ∧
      let first : Simulation Float := ⟨table, start⟩
      let next := first.perform (.dispatch (.robot travel) timed 0)
      first.table.dispatch (.robot travel) timed first.world 0 = .ok (next.table, next.world, applied) ∧
        applied.transition.goal = .between ⟨"room1"⟩ ⟨"room1"⟩ 0.4 ∧
        next.world.level? ⟨"r1"⟩ Robot.routeRemaining = some 3 ∧
        (next.perform (.finish (.robot travel))).table.phase? ⟨"r1"⟩ = some .arrived := by
  intro p travel timed
  have hRun : (ofProblem? p (.robot (.ofConfig .default))).any (fun begun => decide (
      (begun.2.reported? (.dispatch (.robot travel) timed 0)).map (fun applied => applied.transition.goal) =
        some (.between ⟨"room1"⟩ ⟨"room1"⟩ 0.4) ∧
      (begun.2.perform (.dispatch (.robot travel) timed 0)).world.level? ⟨"r1"⟩ Robot.routeRemaining = some 3 ∧
      ((begun.2.perform (.dispatch (.robot travel) timed 0)).perform (.finish (.robot travel))).table.phase? ⟨"r1"⟩ =
        some .arrived)) = true := by
    decide +kernel
  obtain ⟨w, table, start, hWorld, hPrepare, hFacts⟩ := exists_of_ofProblem? hRun
  obtain ⟨hReported, hLeft, hArrived⟩ := of_decide_eq_true hFacts
  obtain ⟨applied, hApplied, hGoal⟩ := Option.map_eq_some_iff.mp hReported
  exact ⟨w, table, start, applied, hWorld, hPrepare, dispatch_of_reported? hApplied, hGoal, hLeft, hArrived⟩

end Simulation

end PlanReplay

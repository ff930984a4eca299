import PlanReplay.Proofs.Robot.Battery

/-!
# Who changes rooms

Hops and travels are the actions that take a robot to another room. A travel sets off only from a phase in which a
robot can; a hop asks for the battery alone, and so it also takes a robot that charges or is on the way.

* `Robot.Table.related?_of_goes` — such an action changes the room of its own robot at most.
* `Robot.Table.phase_of_goes` — the phases from which it is accepted.
* `Simulation.run_room` — who changes rooms along a run.
* `Simulation.run_room_while_charging` — a robot that charges hops to another room.
-/

namespace PlanReplay

namespace Robot.Table

variable {t : Table Float} {w after : World Float} {clock : Float} {action : Action} {effects : List (Effect Float)}
  {mover : EntityId}

/-- A hop or a travel of one robot leaves all others where they are. -/
theorem related?_of_goes (hSound : w.Sound) (hEffects : t.effects w clock action = .ok effects)
    (hApply : w.applyEffects effects = .ok after) (hGoes : action.goes? = some mover) {robot : EntityId}
    (hOther : robot ≠ mover) : after.related? .isAt robot = w.related? .isAt robot := by
  have hNext : after.Sound := World.applyEffects_sound hSound hApply
  have hSubject : robot ≠ action.subject := by
    cases action with
    | move | travel =>
      cases hGoes
      exact hOther
    | pick | drop | startCharge | stopCharge => cases hGoes
  refine Option.ext fun room => ?_
  rw [World.related?_eq_some_iff hNext rfl, World.related?_eq_some_iff hSound rfl]
  simpa [hSubject, Placement.relation] using
    holds_of_effects_iff hSound hEffects hApply robot (.isAt room)

/-- A robot that goes to another room can set off, or hops while it is on the way or charges. -/
theorem phase_of_goes {params : RobotParams Float} (hFit : Fit params t w) (hDrained : Drained t w)
    (hEffects : t.effects w clock action = .ok effects) (hGoes : action.goes? = some mover) :
    t.phase mover = .idle ∨ t.phase mover = .arrived ∨
      ((t.phase mover = .moving ∨ t.phase mover = .charging) ∧ ∃ start goal, action = .move mover start goal) := by
  cases action with
  | travel robot start goal resume =>
    cases hGoes
    rcases (phase_of_effects hEffects).1 _ _ _ _ rfl with hIdle | hArrived
    · exact Or.inl hIdle
    · exact Or.inr (Or.inl hArrived)
  | move robot start goal =>
    cases hGoes
    cases hPhase : t.phase mover with
    | idle => exact Or.inl rfl
    | arrived => exact Or.inr (Or.inl rfl)
    | moving => exact Or.inr (Or.inr ⟨Or.inl rfl, start, goal, rfl⟩)
    | charging => exact Or.inr (Or.inr ⟨Or.inr rfl, start, goal, rfl⟩)
    | batteryDead =>
      -- the battery of a robot that has stopped does not take it anywhere
      have hGrounded : Grounded mover t w := ⟨Or.inl hPhase, hDrained mover (Or.inl hPhase)⟩
      exact absurd hEffects (hGrounded.not_goes hFit rfl effects)
  | pick | drop | startCharge | stopCharge => cases hGoes

end Robot.Table

namespace Simulation

open Robot

/--
**Who changes rooms.** Take any calls on a table of robots that was prepared for a reachable world, and an accepted hop
or travel after them. It changes the room of its own robot at most. That robot was idle or had arrived, or else it was
on the way or charged, and the action is a hop. A robot that has stopped for want of power stays where it is.
-/
theorem run_room {t : Robot.Table Float} {table : ActionTable Float} {w start : World Float}
    (hReachable : w.Reachable) (hPrepare : (ActionTable.robot t).prepare w = .ok (table, start))
    (calls : List (SimulationCall Float)) {action : Robot.Action} {mover : EntityId} (hGoes : action.goes? = some mover)
    {next : Simulation Float} (hDispatch : ((Simulation.mk table start).run calls).Dispatches (.robot action) next)
    (robot : EntityId) (hChanged : next.world.related? .isAt robot ≠
      ((Simulation.mk table start).run calls).world.related? .isAt robot) :
    let phase? := ((Simulation.mk table start).run calls).table.phase?
    robot = mover ∧ (phase? robot = some .idle ∨ phase? robot = some .arrived ∨
      ((phase? robot = some .moving ∨ phase? robot = some .charging) ∧
        ∃ start goal, action = .move robot start goal)) := by
  intro phase?
  obtain ⟨last, hLast, hFit, hDrained⟩ := run_drained hReachable hPrepare calls
  obtain ⟨timed, clock, applied, hAccepted⟩ := hDispatch
  rw [hLast] at hAccepted
  rcases ActionTable.dispatch_robot_cases hAccepted with ⟨hWait, -⟩ | ⟨act, effects, hSame, hEffects, hApply, -⟩
  · cases hWait
  cases hSame
  have hMover : robot = mover := by
    by_contra hOther
    exact hChanged (Table.related?_of_goes hFit.sound hEffects hApply hGoes hOther)
  subst hMover
  refine ⟨rfl, ?_⟩
  simp only [phase?, hLast, ActionTable.phase?, Option.some.injEq]
  exact Table.phase_of_goes hFit hDrained hEffects hGoes

/-- A robot goes on its way, which has an end, and from there it hops on. -/
theorem run_room_of_traveller :
    let p : Problem := ⟨"sweep", "robot", [⟨"r", "robot"⟩, ⟨"a", "room"⟩, ⟨"b", "room"⟩, ⟨"c", "room"⟩],
      [⟨"at-robby", ["r", "a"]⟩], [], []⟩
    let t : Robot.Table Float := .ofConfig .default
    let call (name : String) (action : Robot.Action) : SimulationCall Float :=
      .dispatch (.robot action) ⟨0, 0, name, action.referenced, 1⟩ 0
    let travel : Robot.Action := .travel ⟨"r"⟩ ⟨"a"⟩ ⟨"b"⟩ false
    let hop : Robot.Action := .move ⟨"r"⟩ ⟨"b"⟩ ⟨"c"⟩
    let calls := [call "startmove" travel, .finish (.robot travel)]
    ∃ w table start, World.ofProblem p = .ok w ∧ w.Reachable ∧ (ActionTable.robot t).prepare w = .ok (table, start) ∧
      let arrived := (Simulation.mk table start).run calls
      let next := arrived.perform (call "move" hop)
      arrived.Dispatches (.robot hop) next ∧ arrived.world.related? .isAt ⟨"r"⟩ = some ⟨"b"⟩ ∧
        next.world.related? .isAt ⟨"r"⟩ = some ⟨"c"⟩ ∧
        (arrived.table.phase? ⟨"r"⟩ = some .idle ∨ arrived.table.phase? ⟨"r"⟩ = some .arrived ∨
          ((arrived.table.phase? ⟨"r"⟩ = some .moving ∨ arrived.table.phase? ⟨"r"⟩ = some .charging) ∧
            ∃ start goal, hop = .move ⟨"r"⟩ start goal)) := by
  intro p t call travel hop calls
  have hRun : (ofProblem? p (.robot t)).any (fun begun => decide (
      (begun.2.run calls).accepted? (call "move" hop) = some (.robot hop) ∧
      (begun.2.run calls).world.related? .isAt ⟨"r"⟩ = some ⟨"b"⟩ ∧
      ((begun.2.run calls).perform (call "move" hop)).world.related? .isAt ⟨"r"⟩ = some ⟨"c"⟩)) = true := by
    decide
  obtain ⟨w, table, start, hWorld, hPrepare, hFacts⟩ := exists_of_ofProblem? hRun
  obtain ⟨hAccepted, hBefore, hAfter⟩ := of_decide_eq_true hFacts
  have hReachable : w.Reachable := .ofProblem hWorld
  have hDispatch := dispatches_of_accepted? hAccepted
  have hGoes : hop.goes? = some ⟨"r"⟩ := rfl
  have hChanged : (((Simulation.mk table start).run calls).perform (call "move" hop)).world.related? .isAt ⟨"r"⟩ ≠
      ((Simulation.mk table start).run calls).world.related? .isAt ⟨"r"⟩ := by
    rw [hBefore, hAfter]
    decide
  have hPhase := (run_room hReachable hPrepare calls hGoes hDispatch ⟨"r"⟩ hChanged).2
  exact ⟨w, table, start, hWorld, hReachable, hPrepare, hDispatch, hBefore, hAfter, hPhase⟩

/-- A robot that charges hops to another room, and charges on. -/
theorem run_room_while_charging :
    let p : Problem := ⟨"sweep", "robot", [⟨"r1", "robot"⟩, ⟨"room1", "room"⟩, ⟨"room2", "room"⟩],
      [⟨"at-robby", ["r1", "room1"]⟩, ⟨"connected", ["room1", "room2"]⟩], [⟨"battery", ["r1"], 50⟩], []⟩
    let call (name : String) (action : Robot.Action) : SimulationCall Float :=
      .dispatch (.robot action) ⟨0, 0, name, action.referenced, 1⟩ 0
    let hop : Robot.Action := .move ⟨"r1"⟩ ⟨"room1"⟩ ⟨"room2"⟩
    ∃ w table start, World.ofProblem p = .ok w ∧
      (ActionTable.robot (.ofConfig .default)).prepare w = .ok (table, start) ∧
      let plugged := (Simulation.mk table start).run [call "startcharge" (.startCharge ⟨"r1"⟩)]
      let next := plugged.perform (call "move" hop)
      plugged.table.phase? ⟨"r1"⟩ = some .charging ∧ plugged.world.related? .isAt ⟨"r1"⟩ = some ⟨"room1"⟩ ∧
        plugged.Dispatches (.robot hop) next ∧ next.world.related? .isAt ⟨"r1"⟩ = some ⟨"room2"⟩ ∧
        next.table.phase? ⟨"r1"⟩ = some .charging := by
  intro p call hop
  have hRun : (ofProblem? p (.robot (.ofConfig .default))).any (fun begun => decide (
      (begun.2.run [call "startcharge" (.startCharge ⟨"r1"⟩)]).table.phase? ⟨"r1"⟩ = some .charging ∧
      (begun.2.run [call "startcharge" (.startCharge ⟨"r1"⟩)]).world.related? .isAt ⟨"r1"⟩ = some ⟨"room1"⟩ ∧
      (begun.2.run [call "startcharge" (.startCharge ⟨"r1"⟩)]).accepted? (call "move" hop) = some (.robot hop) ∧
      ((begun.2.run [call "startcharge" (.startCharge ⟨"r1"⟩)]).perform (call "move" hop)).world.related? .isAt ⟨"r1"⟩ =
        some ⟨"room2"⟩ ∧
      ((begun.2.run [call "startcharge" (.startCharge ⟨"r1"⟩)]).perform (call "move" hop)).table.phase? ⟨"r1"⟩ =
        some .charging)) = true := by
    decide
  obtain ⟨w, table, start, hWorld, hPrepare, hFacts⟩ := exists_of_ofProblem? hRun
  obtain ⟨hCharging, hBefore, hAccepted, hAfter, hStill⟩ := of_decide_eq_true hFacts
  exact ⟨w, table, start, hWorld, hPrepare, hCharging, hBefore, dispatches_of_accepted? hAccepted, hAfter, hStill⟩

end Simulation

end PlanReplay

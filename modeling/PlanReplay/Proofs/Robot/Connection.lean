import PlanReplay.Proofs.Robot.Run

/-!
# Connected rooms

In a world that tells which rooms are connected, a hop goes from a room to one that is connected with it. A travel does
not look at connections, and so a robot that travels gets from any room to any other one. No action changes
connections, and so the law of hops is about those of the world that the run began with.

* `Robot.Table.room_of_effects` — the actions that take a robot from one room to another.
* `Simulation.run_connected` — by what connections robots change rooms along a run.
* `Simulation.run_connected_of_travel` — a robot travels to a room that is not connected with its own.
-/

namespace PlanReplay

variable {α : Type}

namespace World

/-- Some relation of a kind holds iff one of some subject and object does. -/
theorem hasRelations_iff {w : World α} {kind : RelationKind} :
    w.hasRelations kind = true ↔ ∃ subject object, w.holds ⟨kind, subject, object⟩ = true := by
  simp only [hasRelations, relations, List.any_eq_true, decide_eq_true_eq, holds, OrderedSet.mem_toList]
  constructor
  · rintro ⟨⟨_, subject, object⟩, hMem, rfl⟩
    exact ⟨subject, object, hMem⟩
  · rintro ⟨subject, object, hMem⟩
    exact ⟨_, hMem, rfl⟩

/-- Whether two rooms are connected, in either direction, in a world that tells which are. -/
def Connects (w : World α) (room other : EntityId) : Prop :=
  w.hasRelations .connected = true →
    w.holds ⟨.connected, room, other⟩ = true ∨ w.holds ⟨.connected, other, room⟩ = true

theorem connects_congr {w next : World α}
    (h : ∀ room other, next.holds ⟨.connected, room, other⟩ = w.holds ⟨.connected, room, other⟩)
    (room other : EntityId) : next.Connects room other ↔ w.Connects room other := by
  simp only [Connects, hasRelations_iff, h]

end World

namespace Robot.Table

variable {t : Table α} {w next : World α}

theorem disconnected?_eq_none_iff {room other : EntityId} :
    disconnected? w room other = none ↔ w.Connects room other := by
  unfold disconnected? World.Connects
  cases w.hasRelations .connected <;> cases w.holds ⟨.connected, room, other⟩ <;>
    cases w.holds ⟨.connected, other, room⟩ <;> simp

variable [Scalar α]

/-- An accepted action that takes a robot from one room to another is a hop of it between connected rooms, or a travel
of it between any rooms. -/
theorem room_of_effects {clock : α} {action : Action} {effects : List (Effect α)} (hSound : w.Sound)
    (hEffects : t.effects w clock action = .ok effects) (hApply : w.applyEffects effects = .ok next)
    {robot room other : EntityId} (hBefore : w.related? .isAt robot = some room)
    (hAfter : next.related? .isAt robot = some other) (hChanged : room ≠ other) :
    (action = .move robot room other ∧ w.Connects room other) ∨ ∃ resume, action = .travel robot room other resume := by
  have hRoom : (Placement.isAt room).relation robot ∈ w.state.relations :=
    of_decide_eq_true (World.holds_of_related? hBefore)
  have hOnly : ∀ {p : Placement}, w.holds (p.relation robot) = true → Placement.isAt room = p :=
    fun hHolds => (hSound.state.relation_mem_iff hRoom _).mp (of_decide_eq_true hHolds)
  rcases (holds_of_effects_iff hSound hEffects hApply robot (.isAt other)).mp (World.holds_of_related? hAfter) with
    ⟨hSubject, hLanding⟩ | ⟨-, hStill⟩
  · -- it is the action that puts the robot into the other room
    cases action with
    | move mover start goal =>
      cases hSubject
      cases hLanding
      obtain ⟨hStart, hConnected, -⟩ := move_eq_ok hEffects
      cases hOnly (p := .isAt start) hStart
      exact Or.inl ⟨rfl, disconnected?_eq_none_iff.mp hConnected⟩
    | travel mover start goal resume =>
      cases hSubject
      dsimp only [landing?] at hLanding
      split at hLanding
      · cases hLanding
        cases hOnly (p := .isAt start) (travel_eq_ok hEffects).2.1
        exact Or.inr ⟨resume, rfl⟩
      · cases hLanding
    | drop ball dropped carrier =>
      cases hSubject
      cases hOnly (p := .carriedBy carrier) (drop_eq_ok hEffects).2.1
    | pick | startCharge | stopCharge => cases hLanding
  · cases hOnly (p := .isAt other) hStill
    exact absurd rfl hChanged

end Robot.Table

namespace Simulation

/--
**Robots and connections.** Take any calls on a table of robots that was prepared for a reachable world, and an accepted
action after them that takes a robot from one room to another. Either it is a hop of this robot, and if the world that
the run began with tells any connections, then it connects the two rooms; or it is a travel of this robot from the one
room to the other.
-/
theorem run_connected {t : Robot.Table Float} {table : ActionTable Float} {w start : World Float}
    (hReachable : w.Reachable) (hPrepare : (ActionTable.robot t).prepare w = .ok (table, start))
    (calls : List (SimulationCall Float)) {action : DomainAction} {next : Simulation Float}
    (hDispatch : ((Simulation.mk table start).run calls).Dispatches action next) {robot room other : EntityId}
    (hBefore : ((Simulation.mk table start).run calls).world.related? .isAt robot = some room)
    (hAfter : next.world.related? .isAt robot = some other) (hChanged : room ≠ other) :
    (action = .robot (.move robot room other) ∧
        (w.hasRelations .connected = true →
          w.holds ⟨.connected, room, other⟩ = true ∨ w.holds ⟨.connected, other, room⟩ = true)) ∨
      ∃ resume, action = .robot (.travel robot room other resume) := by
  obtain ⟨last, hLast, hFit⟩ := run_fit hReachable.sound hPrepare calls
  obtain ⟨timed, clock, applied, hAccepted⟩ := hDispatch
  rw [hLast] at hAccepted
  rcases ActionTable.dispatch_robot_cases hAccepted with ⟨-, -, hSame⟩ | ⟨act, effects, rfl, hEffects, hApply, -⟩
  · rw [hSame, hBefore] at hAfter
    exact absurd (Option.some.inj hAfter) hChanged
  · refine (Robot.Table.room_of_effects hFit.sound hEffects hApply hBefore hAfter hChanged).imp ?_ ?_
    · rintro ⟨rfl, hConnects⟩
      refine ⟨rfl, (World.connects_congr ?_ room other).mp hConnects⟩
      intro one another
      rw [run_holds_of_unplaced _ _ fun _ => rfl]
      simp only [World.holds, (ActionTable.rest_of_prepare_robot hPrepare).1]
    · rintro ⟨resume, rfl⟩
      exact ⟨resume, rfl⟩

/-- A robot travels along two connections, and hops back against one of them. -/
theorem run_connected_of_three_rooms :
    let p : Problem := ⟨"sweep", "robot", [⟨"r", "robot"⟩, ⟨"a", "room"⟩, ⟨"b", "room"⟩, ⟨"c", "room"⟩],
      [⟨"at-robby", ["r", "a"]⟩, ⟨"connected", ["a", "b"]⟩, ⟨"connected", ["b", "c"]⟩], [], []⟩
    let t : Robot.Table Float := .ofConfig .default
    let call (name : String) (action : Robot.Action) : SimulationCall Float :=
      .dispatch (.robot action) ⟨0, 0, name, action.referenced, 1⟩ 0
    let travel : Robot.Action := .travel ⟨"r"⟩ ⟨"a"⟩ ⟨"b"⟩ false
    let hop : Robot.Action := .move ⟨"r"⟩ ⟨"c"⟩ ⟨"b"⟩
    let calls := [call "startmove" travel, .finish (.robot travel), call "move" (.move ⟨"r"⟩ ⟨"b"⟩ ⟨"c"⟩)]
    ∃ w table start, World.ofProblem p = .ok w ∧ w.Reachable ∧ (ActionTable.robot t).prepare w = .ok (table, start) ∧
      let before := (Simulation.mk table start).run calls
      let next := before.perform (call "move" hop)
      before.Dispatches (.robot hop) next ∧ before.world.related? .isAt ⟨"r"⟩ = some ⟨"c"⟩ ∧
        next.world.related? .isAt ⟨"r"⟩ = some ⟨"b"⟩ ∧
        (DomainAction.robot hop = .robot (.move ⟨"r"⟩ ⟨"c"⟩ ⟨"b"⟩) ∧
            (w.hasRelations .connected = true →
              w.holds ⟨.connected, ⟨"c"⟩, ⟨"b"⟩⟩ = true ∨ w.holds ⟨.connected, ⟨"b"⟩, ⟨"c"⟩⟩ = true) ∨
          ∃ resume, DomainAction.robot hop = .robot (.travel ⟨"r"⟩ ⟨"c"⟩ ⟨"b"⟩ resume)) := by
  intro p t call travel hop calls
  have hRun : (ofProblem? p (.robot t)).any (fun begun => decide (
      (begun.2.run calls).accepted? (call "move" hop) = some (.robot hop) ∧
      (begun.2.run calls).world.related? .isAt ⟨"r"⟩ = some ⟨"c"⟩ ∧
      ((begun.2.run calls).perform (call "move" hop)).world.related? .isAt ⟨"r"⟩ = some ⟨"b"⟩)) = true := by
    decide
  obtain ⟨w, table, start, hWorld, hPrepare, hFacts⟩ := exists_of_ofProblem? hRun
  obtain ⟨hAccepted, hBefore, hAfter⟩ := of_decide_eq_true hFacts
  have hReachable : w.Reachable := .ofProblem hWorld
  have hDispatch := dispatches_of_accepted? hAccepted
  have hConnected := run_connected hReachable hPrepare calls hDispatch hBefore hAfter (by decide)
  exact ⟨w, table, start, hWorld, hReachable, hPrepare, hDispatch, hBefore, hAfter, hConnected⟩

/-- A robot travels to a room that is connected with no room. A hop there is rejected. -/
theorem run_connected_of_travel :
    let p : Problem := ⟨"sweep", "robot", [⟨"r1", "robot"⟩, ⟨"room1", "room"⟩, ⟨"room2", "room"⟩, ⟨"room3", "room"⟩],
      [⟨"at-robby", ["r1", "room1"]⟩, ⟨"connected", ["room1", "room2"]⟩], [], []⟩
    let call (name : String) (action : Robot.Action) : SimulationCall Float :=
      .dispatch (.robot action) ⟨0, 0, name, action.referenced, 1⟩ 0
    let travel : Robot.Action := .travel ⟨"r1"⟩ ⟨"room1"⟩ ⟨"room3"⟩ false
    ∃ w table start, World.ofProblem p = .ok w ∧
      (ActionTable.robot (.ofConfig .default)).prepare w = .ok (table, start) ∧
      let first : Simulation Float := ⟨table, start⟩
      let next := first.perform (call "startmove" travel)
      w.relations.filter (fun r => r.kind = .connected) = [⟨.connected, ⟨"room1"⟩, ⟨"room2"⟩⟩] ∧
        first.world.related? .isAt ⟨"r1"⟩ = some ⟨"room1"⟩ ∧ first.Dispatches (.robot travel) next ∧
        next.world.related? .isAt ⟨"r1"⟩ = some ⟨"room3"⟩ ∧
        first.accepted? (call "move" (.move ⟨"r1"⟩ ⟨"room1"⟩ ⟨"room3"⟩)) = none := by
  intro p call travel
  have hRun : (ofProblem? p (.robot (.ofConfig .default))).any (fun begun => decide (
      begun.1.relations.filter (fun r => r.kind = .connected) = [⟨.connected, ⟨"room1"⟩, ⟨"room2"⟩⟩] ∧
      begun.2.world.related? .isAt ⟨"r1"⟩ = some ⟨"room1"⟩ ∧
      begun.2.accepted? (call "startmove" travel) = some (.robot travel) ∧
      (begun.2.perform (call "startmove" travel)).world.related? .isAt ⟨"r1"⟩ = some ⟨"room3"⟩ ∧
      begun.2.accepted? (call "move" (.move ⟨"r1"⟩ ⟨"room1"⟩ ⟨"room3"⟩)) = none)) = true := by
    decide
  obtain ⟨w, table, start, hWorld, hPrepare, hFacts⟩ := exists_of_ofProblem? hRun
  obtain ⟨hConnections, hBefore, hAccepted, hAfter, hHop⟩ := of_decide_eq_true hFacts
  exact ⟨w, table, start, hWorld, hPrepare, hConnections, hBefore, dispatches_of_accepted? hAccepted, hAfter, hHop⟩

end Simulation

end PlanReplay

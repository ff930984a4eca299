import PlanReplay.Proofs.Exact
import PlanReplay.Proofs.Robot.Run

/-!
# Travels that are resumed

A travel that stops short leaves a number with its robot: what is left of the way. A travel that resumes takes this number
for its length, if it is positive. The number does not say which way it belongs to. It is the last travel that has left
it, since travels are what changes it and one that arrives leaves nothing; but the robot may hop to another room in
between, and a travel that resumes may go anywhere.

* `Simulation.StopsShort` — a travel that is carried out and leaves some of its way.
* `Robot.Table.left_of_travel` — what a travel leaves is positive only if it stops short.
* `Simulation.left_of_run`, `Simulation.room_of_run` — what stays between two travels of a robot.
* `Simulation.LeftOver`, `Simulation.leftOver_of_run` — how a robot has come by what is left of a way.
* `Simulation.run_resumed`, `Simulation.run_resumed_in_doubles` — whose way a travel resumes, and from where.
* `Simulation.run_resumed_elsewhere` — a robot resumes from a room where it has not stopped.
-/

namespace PlanReplay

variable {α : Type} [Scalar α]

open Robot

/-- An accepted travel leads from `s` to `next`. It goes from `origin` and does not reach `goal`, and the robot keeps what
is left of the way. -/
def Simulation.StopsShort (s next : Simulation α) (robot origin goal : EntityId) (left : α) : Prop :=
  ∃ resume timed clock applied fraction,
    s.table.dispatch (.robot (.travel robot origin goal resume)) timed s.world clock =
        .ok (next.table, next.world, applied) ∧
      applied.transition.goal = .between origin goal fraction ∧ next.world.level? robot routeRemaining = some left

-- ---------------------------------------------------------------------------
-- What a travel leaves
-- ---------------------------------------------------------------------------

namespace Robot.Table

variable {t : Table α} {w next : World α} {robot start goal : EntityId} {resume : Bool} {effects : List (Effect α)}

/-- After a travel something is left of a way only if it is the way of this travel, which stops short, and the robot is
where it was. -/
theorem left_of_travel (hZero : ¬ (0 : α) < 0) (h : t.travel w robot start goal resume = .ok effects)
    (hApply : w.applyEffects effects = .ok next) {left : α} (hLeft : next.level? robot routeRemaining = some left)
    (hPositive : 0 < left) :
    (t.route w robot start goal resume).arrives = false ∧ next.holds ⟨.isAt, robot, start⟩ = true := by
  have hShort : (t.route w robot start goal resume).arrives = false := by
    by_contra hArrives
    rw [left_of_arrival h hApply (Bool.not_eq_false _ ▸ hArrives)] at hLeft
    obtain ⟨-, -, rfl⟩ := Option.map_eq_some_iff.mp hLeft
    exact hZero hPositive
  refine ⟨hShort, ?_⟩
  have hShift : Shift ⟨some robot, []⟩ robot effects _ := travel_shift rfl h
  rw [hShort, if_neg Bool.false_ne_true] at hShift
  obtain ⟨-, staged, hStaged, -, rfl⟩ := World.applyEffects_eq_ok_iff.mp hApply
  simpa only [World.holds, hShift.stays hStaged] using (travel_eq_ok h).2.1

/-- The length of a travel that resumes is what is left, if that is positive. -/
theorem routeLength_of_left {left : α} (hLeft : w.level? robot routeRemaining = some left) (hPositive : 0 < left) :
    t.routeLength w robot start goal true = left := by
  have hKept : (some left).filter (fun x => decide (0 < x)) = some left := by simp [Option.filter, hPositive]
  unfold routeLength
  rw [hLeft, if_pos rfl, hKept]
  rfl

end Robot.Table

-- ---------------------------------------------------------------------------
-- What stays between travels
-- ---------------------------------------------------------------------------

namespace Robot

variable {t next : Table α} {w after : World α} {event : Event} {robot room : EntityId}

/-- A step that is no travel of a robot keeps what is left of its way. -/
theorem Step.left_of_other (h : Step t w event next after)
    (hOther : ∀ action, event = .act action → action.traveller? ≠ some robot) :
    after.level? robot routeRemaining = w.level? robot routeRemaining := by
  cases h with
  | rest | finish | settle => rfl
  | act hEffects hApply => exact level?_of_act hEffects hApply (hOther _ rfl) nofun

/-- Who is in a room after a step that has not put it into a room has been there before. -/
theorem Step.room_of_other (h : Step t w event next after) (hSound : w.Sound)
    (hOther : ∀ action, event = .act action → action.subject = robot → ∀ place, t.landing? w action ≠ some (.isAt place))
    (hRoom : after.related? .isAt robot = some room) : w.related? .isAt robot = some room := by
  cases h with
  | rest | finish | settle => exact hRoom
  | act hEffects hApply =>
    rw [World.related?_eq_some_iff hSound rfl]
    rcases (Table.holds_of_effects_iff hSound hEffects hApply robot (.isAt room)).mp (World.holds_of_related? hRoom) with
      ⟨hSubject, hLanding⟩ | ⟨-, hStill⟩
    · exact absurd hLanding (hOther _ rfl hSubject.symm room)
    · exact hStill

end Robot

-- ---------------------------------------------------------------------------
-- Runs
-- ---------------------------------------------------------------------------

/-- An action is a travel of a robot. -/
def DomainAction.TravelOf (robot : EntityId) (action : DomainAction) : Prop :=
  ∃ start goal resume, action = .robot (.travel robot start goal resume)

/-- An action puts a robot into a room without a travel: the robot hops there, or it has been carried and is put
down. -/
def DomainAction.Resettles (robot : EntityId) (action : DomainAction) : Prop :=
  (∃ start goal, action = .robot (.move robot start goal)) ∨ ∃ place carrier, action = .robot (.drop robot place carrier)

/-- An action that puts a robot into a room is a travel of it, or does so without one. -/
theorem Robot.Table.travelOf_or_resettles {t : Table α} {w : World α} {action : Action} {robot place : EntityId}
    (hSubject : action.subject = robot) (hLanding : t.landing? w action = some (.isAt place)) :
    DomainAction.TravelOf robot (.robot action) ∨ DomainAction.Resettles robot (.robot action) := by
  cases action with
  | move mover start goal =>
    cases hSubject
    exact Or.inr (Or.inl ⟨start, goal, rfl⟩)
  | travel mover start goal resume =>
    cases hSubject
    exact Or.inl ⟨start, goal, resume, rfl⟩
  | drop ball dropped carrier =>
    cases hSubject
    exact Or.inr (Or.inr ⟨dropped, carrier, rfl⟩)
  | pick | startCharge | stopCharge => cases hLanding

namespace Simulation

variable {robot room : EntityId}

/-- Calls without a travel of a robot keep what is left of its way. -/
theorem left_of_run {s : Simulation α} {t : Table α} (hTable : s.table = .robot t) {calls : List (SimulationCall α)}
    (hNone : ∀ action ∈ s.accepted calls, ¬ action.TravelOf robot) :
    (s.run calls).world.level? robot routeRemaining = s.world.level? robot routeRemaining := by
  have hAllowed : ∀ event ∈ s.events calls, ∀ action, event = .act action → action.traveller? ≠ some robot := by
    rintro _ hEvent action rfl hTravels
    refine hNone _ (mem_accepted_of_event calls hTable hEvent) ?_
    cases action with
    | travel mover start goal resume =>
      cases hTravels
      exact ⟨start, goal, resume, rfl⟩
    | move | pick | drop | startCharge | stopCharge => cases hTravels
  obtain ⟨-, -, hLevel⟩ := run_robot
    (motive := fun _ w => w.level? robot routeRemaining = s.world.level? robot routeRemaining) _
    (fun hSame hOther hStep => (hStep.left_of_other hOther).trans hSame) calls hTable rfl hAllowed
  exact hLevel

/-- Who is in a room after calls that do not put it into a room has been there all the time. -/
theorem room_of_run (calls : List (SimulationCall α)) : ∀ {s : Simulation α} {t : Table α}, s.table = .robot t →
    s.world.Sound → (∀ action ∈ s.accepted calls, ¬ action.TravelOf robot ∧ ¬ action.Resettles robot) →
      (s.run calls).world.related? .isAt robot = some room →
        ∀ early, early <+: calls → (s.run early).world.related? .isAt robot = some room := by
  induction calls with
  | nil =>
    intro s t _ _ _ hRoom early hEarly
    rw [List.prefix_nil.mp hEarly]
    exact hRoom
  | cons call rest ih =>
    intro s t hTable hSound hNone hRoom early hEarly
    obtain ⟨next, hNext, hStep⟩ := perform_robot hTable call
    have hCrash := crash?_robot hTable call
    have hRest : ∀ action ∈ (s.perform call).accepted rest, ¬ action.TravelOf robot ∧ ¬ action.Resettles robot := by
      intro action hAction
      refine hNone action ?_
      rw [accepted_cons hCrash]
      exact List.mem_append_right _ hAction
    rw [run_cons hCrash] at hRoom
    have hLater := ih hNext (perform_sound hSound call) hRest hRoom
    have hHere : s.world.related? .isAt robot = some room := by
      refine hStep.room_of_other hSound ?_ (hLater [] List.nil_prefix)
      intro action hEvent hSubject place hLanding
      have hAccepted : .robot action ∈ s.accepted (call :: rest) :=
        mem_accepted_of_event _ hTable (List.mem_cons.mpr (Or.inl hEvent.symm))
      exact (Table.travelOf_or_resettles hSubject hLanding).elim (hNone _ hAccepted).1 (hNone _ hAccepted).2
    rcases List.prefix_cons_iff.mp hEarly with rfl | ⟨later, rfl, hPrefix⟩
    · exact hHere
    · rw [run_cons hCrash]
      exact hLater later hPrefix

/-- A travel that leaves a positive part of its way stops short, and its robot is still where it was. -/
theorem stopsShort_of_left (hZero : ¬ (0 : α) < 0) {s next : Simulation α} {t : Table α} (hTable : s.table = .robot t)
    {origin goal : EntityId} {resume : Bool} (hDispatch : s.Dispatches (.robot (.travel robot origin goal resume)) next)
    {left : α} (hLeft : next.world.level? robot routeRemaining = some left) (hPositive : 0 < left) :
    s.StopsShort next robot origin goal left ∧ next.world.holds ⟨.isAt, robot, origin⟩ = true := by
  obtain ⟨timed, clock, applied, hAccepted⟩ := hDispatch
  have hCases := hAccepted
  rw [hTable] at hCases
  rcases ActionTable.dispatch_robot_cases hCases with ⟨hWait, -⟩ | ⟨act, effects, hSame, hEffects, hApply, -, hTold⟩
  · cases hWait
  cases hSame
  obtain ⟨hShort, hStill⟩ := Table.left_of_travel hZero hEffects hApply hLeft hPositive
  obtain ⟨fraction, hGoal⟩ : ∃ fraction, applied.transition.goal = .between origin goal fraction := by
    rw [hTold]
    simp [Table.transition, hShort]
  exact ⟨⟨resume, timed, clock, applied, fraction, hAccepted, hGoal, hLeft⟩, hStill⟩

/-- How a robot that is in `room` after some calls has come by what is left of a way. It was there in the world that the
calls began with, and the robot has not travelled; or the last travel of the robot that was carried out has left it and has
stopped short. If nothing has put the robot into a room since then, it is in the room where that travel set off, and has
been there all the time. -/
def LeftOver (first : Simulation α) (w : World α) (calls : List (SimulationCall α)) (robot room : EntityId) (left : α) :
    Prop :=
  (w.level? robot routeRemaining = some left ∧ ∀ action ∈ first.accepted calls, ¬ action.TravelOf robot) ∨
    ∃ before call since origin meant, calls = before ++ call :: since ∧
      let stopped := (first.run before).perform call
      (first.run before).StopsShort stopped robot origin meant left ∧
        (∀ action ∈ stopped.accepted since, ¬ action.TravelOf robot) ∧
        ((∀ action ∈ stopped.accepted since, ¬ action.Resettles robot) →
          origin = room ∧ ∀ early, early <+: since → (stopped.run early).world.related? .isAt robot = some room)

theorem leftOver_of_run (hZero : ¬ (0 : α) < 0) {t : Table α} {table : ActionTable α} {w start : World α}
    (hSound : w.Sound) (hPrepare : (ActionTable.robot t).prepare w = .ok (table, start))
    (calls : List (SimulationCall α)) {goal : EntityId} {next : Simulation α}
    (hDispatch : ((Simulation.mk table start).run calls).Dispatches (.robot (.travel robot room goal true)) next)
    {left : α} (hLeft : ((Simulation.mk table start).run calls).world.level? robot routeRemaining = some left)
    (hPositive : 0 < left) :
    let first : Simulation α := ⟨table, start⟩
    first.LeftOver w calls robot room left := by
  intro first
  obtain ⟨hFirst, -⟩ : first.table = .robot (t.prepare w).1 ∧ _ := fit_of_prepare hSound hPrepare
  obtain ⟨last, hLast, hFit⟩ := run_fit hSound hPrepare calls
  have hRoom : (first.run calls).world.related? .isAt robot = some room := by
    obtain ⟨timed, clock, applied, hAccepted⟩ := hDispatch
    rw [hLast] at hAccepted
    rcases ActionTable.dispatch_robot_cases hAccepted with ⟨hWait, -⟩ | ⟨act, effects, hSame, hEffects, -⟩
    · cases hWait
    cases hSame
    exact (World.related?_eq_some_iff hFit.sound rfl).mpr (Table.travel_eq_ok hEffects).2.1
  rcases exists_last_accepted (DomainAction.TravelOf robot) calls first with
    hNone | ⟨before, call, since, _, rfl, hCall, ⟨origin, meant, resume, rfl⟩, hSince⟩
  · -- what is left has been there from the beginning
    have hOther : routeRemaining ≠ .battery := nofun
    have hSame := ActionTable.level?_of_prepare_robot hPrepare hOther robot
    have hKept : (first.run calls).world.level? robot routeRemaining = start.level? robot routeRemaining :=
      left_of_run hFirst hNone
    exact Or.inl ⟨hSame.symm.trans (hKept.symm.trans hLeft), hNone⟩
  · refine Or.inr ⟨before, call, since, origin, meant, rfl, ?_⟩
    obtain ⟨earlier, hEarlier, hFitEarlier⟩ := run_fit hSound hPrepare before
    obtain ⟨after, hAfter, -⟩ := perform_robot hEarlier call
    rw [run_append_robot before _ hFirst, run_cons (crash?_robot hEarlier call)] at hLeft hRoom
    have hStopped := (left_of_run hAfter hSince).symm.trans hLeft
    obtain ⟨hShort, hOrigin⟩ := stopsShort_of_left hZero hEarlier (dispatches_of_accepted? hCall) hStopped hPositive
    have hNext := perform_sound hFitEarlier.sound call
    refine ⟨hShort, hSince, ?_⟩
    intro hSettled
    have hStays := room_of_run since hAfter hNext (fun action hAction => ⟨hSince action hAction, hSettled action hAction⟩)
      hRoom
    refine ⟨?_, hStays⟩
    rw [← World.related?_eq_some_iff hNext rfl] at hOrigin
    exact Option.some.inj (hOrigin.symm.trans (hStays [] List.nil_prefix))

/--
**Whose way is resumed.** Take any calls on a table of robots that was prepared for a world, and an accepted travel
after them that resumes, where something is left of a way of its robot. What is left is the length of the travel. It
was there in the world that the run began with, and the robot has not travelled; or the last travel of the robot that
was carried out has left it and has stopped short. If nothing has put the robot into a room since then, it resumes from
the room where that travel set off, and has been there all the time.
-/
theorem run_resumed (hZero : ¬ (0 : α) < 0) {t : Table α} {table : ActionTable α} {w start : World α} (hSound : w.Sound)
    (hPrepare : (ActionTable.robot t).prepare w = .ok (table, start)) (calls : List (SimulationCall α)) {goal : EntityId}
    {next : Simulation α}
    (hDispatch : ((Simulation.mk table start).run calls).Dispatches (.robot (.travel robot room goal true)) next)
    {left : α} (hLeft : ((Simulation.mk table start).run calls).world.level? robot routeRemaining = some left)
    (hPositive : 0 < left) :
    let first : Simulation α := ⟨table, start⟩
    t.routeLength (first.run calls).world robot room goal true = left ∧ first.LeftOver w calls robot room left :=
  ⟨Table.routeLength_of_left hLeft hPositive, leftOver_of_run hZero hSound hPrepare calls hDispatch hLeft hPositive⟩

/-- The same for doubles, where nothing is asked of the numbers. -/
theorem run_resumed_in_doubles {t : Table Float} {table : ActionTable Float} {w start : World Float} (hSound : w.Sound)
    (hPrepare : (ActionTable.robot t).prepare w = .ok (table, start)) (calls : List (SimulationCall Float))
    {goal : EntityId} {next : Simulation Float}
    (hDispatch : ((Simulation.mk table start).run calls).Dispatches (.robot (.travel robot room goal true)) next)
    {left : Float} (hLeft : ((Simulation.mk table start).run calls).world.level? robot routeRemaining = some left)
    (hPositive : 0 < left) :
    let first : Simulation Float := ⟨table, start⟩
    t.routeLength (first.run calls).world robot room goal true = left ∧ first.LeftOver w calls robot room left :=
  ⟨Table.routeLength_of_left hLeft hPositive,
    leftOver_of_run (by decide) hSound hPrepare calls hDispatch hLeft hPositive⟩

/-- A robot sets off with too little power, stops, charges where it is, and resumes its way from there. -/
theorem run_resumed_of_charged :
    let setup : List (WorldCall (Exact fun _ => 1 / 2)) :=
      [.declare ⟨"r"⟩ .robot, .declare ⟨"a"⟩ .room, .declare ⟨"b"⟩ .room,
        .applyEffects [.relate ⟨.isAt, ⟨"r"⟩, ⟨"a"⟩⟩, .setLevel ⟨"r"⟩ .battery 14]]
    let w := setup.foldl (fun w call => (w.perform call).1) World.empty
    let t : Table (Exact fun _ => 1 / 2) := ⟨⟨5, 1, 2, 10, 1 / 5, 100⟩, 1, false, .empty⟩
    let call (clock : Exact fun _ => 1 / 2) (name : String) (action : Action) :
        SimulationCall (Exact fun _ => 1 / 2) :=
      .dispatch (.robot action) ⟨0, 0, name, action.referenced, 1⟩ clock
    let travel : Action := .travel ⟨"r"⟩ ⟨"a"⟩ ⟨"b"⟩ false
    let resumed : Action := .travel ⟨"r"⟩ ⟨"a"⟩ ⟨"b"⟩ true
    let calls := [call 0 "startmove" travel, .finish (.robot travel), call 2 "startcharge" (.startCharge ⟨"r"⟩),
      call 9 "stopcharge" (.stopCharge ⟨"r"⟩)]
    w.Sound ∧ ∃ table start, (ActionTable.robot t).prepare w = .ok (table, start) ∧
      let first : Simulation (Exact fun _ => 1 / 2) := ⟨table, start⟩
      let next := (first.run calls).perform (call 9 "reprisemovement" resumed)
      (first.run calls).Dispatches (.robot resumed) next ∧ t.routeLength (first.run calls).world ⟨"r"⟩ ⟨"a"⟩ ⟨"b"⟩ true = 3 ∧
        next.world.related? .isAt ⟨"r"⟩ = some ⟨"b"⟩ ∧
        ∃ before call since origin meant, calls = before ++ call :: since ∧
          let stopped := (first.run before).perform call
          (first.run before).StopsShort stopped ⟨"r"⟩ origin meant 3 ∧
            (∀ action ∈ stopped.accepted since, ¬ action.TravelOf ⟨"r"⟩) ∧
            ((∀ action ∈ stopped.accepted since, ¬ action.Resettles ⟨"r"⟩) →
              origin = ⟨"a"⟩ ∧
                ∀ early, early <+: since → (stopped.run early).world.related? .isAt ⟨"r"⟩ = some ⟨"a"⟩) := by
  intro setup w t call travel resumed calls
  have hSound : w.Sound :=
    World.perform_sound (World.perform_sound (World.perform_sound (World.perform_sound World.empty_sound _) _) _) _
  have hPrepare : (ActionTable.robot t).prepare w = .ok (_, _) := rfl
  refine ⟨hSound, _, _, hPrepare, ?_⟩
  intro first next
  have hAccepted : (first.run calls).accepted? (call 9 "reprisemovement" resumed) = some (.robot resumed) := by
    decide +kernel
  have hLeft : (first.run calls).world.level? ⟨"r"⟩ routeRemaining = some 3 := by decide +kernel
  have hThere : next.world.related? .isAt ⟨"r"⟩ = some ⟨"b"⟩ := by decide +kernel
  have hFresh : w.level? ⟨"r"⟩ routeRemaining = none := by decide
  have hDispatch := dispatches_of_accepted? hAccepted
  obtain ⟨hLength, hWay⟩ := run_resumed (by decide) hSound hPrepare calls hDispatch hLeft (by decide)
  refine ⟨hDispatch, hLength, hThere, hWay.resolve_left ?_⟩
  rw [hFresh]
  exact nofun

/-- A robot stops on its way from the first room to the second one. It charges, hops to the third room, and there it
resumes with what is left of its way, and gets to the fourth room. -/
theorem run_resumed_elsewhere :
    let setup : List (WorldCall (Exact fun _ => 1 / 2)) :=
      [.declare ⟨"r1"⟩ .robot, .declare ⟨"room1"⟩ .room, .declare ⟨"room2"⟩ .room, .declare ⟨"room3"⟩ .room,
        .declare ⟨"room4"⟩ .room,
        .applyEffects [.relate ⟨.isAt, ⟨"r1"⟩, ⟨"room1"⟩⟩, .setLevel ⟨"r1"⟩ .battery 14]]
    let w := setup.foldl (fun w call => (w.perform call).1) World.empty
    let t : Table (Exact fun _ => 1 / 2) := ⟨⟨5, 1, 2, 10, 1 / 5, 100⟩, 1, false, .empty⟩
    let call (clock : Exact fun _ => 1 / 2) (name : String) (action : Action) :
        SimulationCall (Exact fun _ => 1 / 2) :=
      .dispatch (.robot action) ⟨0, 0, name, action.referenced, 1⟩ clock
    let travel : Action := .travel ⟨"r1"⟩ ⟨"room1"⟩ ⟨"room2"⟩ false
    let resumed : Action := .travel ⟨"r1"⟩ ⟨"room3"⟩ ⟨"room4"⟩ true
    let calls := [call 0 "startmove" travel, .finish (.robot travel), call 2 "startcharge" (.startCharge ⟨"r1"⟩),
      call 1000 "stopcharge" (.stopCharge ⟨"r1"⟩), call 1000 "move" (.move ⟨"r1"⟩ ⟨"room1"⟩ ⟨"room3"⟩)]
    ∃ table start, (ActionTable.robot t).prepare w = .ok (table, start) ∧
      let first : Simulation (Exact fun _ => 1 / 2) := ⟨table, start⟩
      let stopped := first.perform (call 0 "startmove" travel)
      let next := (first.run calls).perform (call 1001 "reprisemovement" resumed)
      first.StopsShort stopped ⟨"r1"⟩ ⟨"room1"⟩ ⟨"room2"⟩ 3 ∧
        first.accepted calls = [.robot travel, .robot (.startCharge ⟨"r1"⟩), .robot (.stopCharge ⟨"r1"⟩),
          .robot (.move ⟨"r1"⟩ ⟨"room1"⟩ ⟨"room3"⟩)] ∧
        (first.run calls).world.level? ⟨"r1"⟩ routeRemaining = some 3 ∧
        t.routeLength (first.run calls).world ⟨"r1"⟩ ⟨"room3"⟩ ⟨"room4"⟩ true = 3 ∧
        (first.run calls).Dispatches (.robot resumed) next ∧ next.world.related? .isAt ⟨"r1"⟩ = some ⟨"room4"⟩ := by
  intro setup w t call travel resumed calls
  have hPrepare : (ActionTable.robot t).prepare w = .ok (_, _) := rfl
  refine ⟨_, _, hPrepare, ?_⟩
  intro first stopped next
  have hReported : (first.reported? (call 0 "startmove" travel)).map (fun applied => applied.transition.goal) =
      some (.between ⟨"room1"⟩ ⟨"room2"⟩ (2 / 5)) := by
    decide +kernel
  obtain ⟨applied, hApplied, hGoal⟩ := Option.map_eq_some_iff.mp hReported
  have hStopped : stopped.world.level? ⟨"r1"⟩ routeRemaining = some 3 := by decide +kernel
  have hAccepted : (first.run calls).accepted? (call 1001 "reprisemovement" resumed) = some (.robot resumed) := by
    decide +kernel
  refine ⟨⟨false, _, _, applied, 2 / 5, dispatch_of_reported? hApplied, hGoal, hStopped⟩, ?_, ?_, ?_,
    dispatches_of_accepted? hAccepted, ?_⟩
  · decide +kernel
  · decide +kernel
  · decide +kernel
  · decide +kernel

end Simulation

end PlanReplay

import PlanReplay.Domain.Table

/-!
# Tables without the clock

The clock gets into a table at one place, the point of time at which a robot began to charge, and only the
end of charging reads it. `unclocked` takes these points out of a table. Every action but the end of charging
does the same from a table and from the table without them, at whatever time.

* `Robot.Table.effects_unclocked`, `transition_unclocked`, `commit_unclocked`, `finish_unclocked` — the parts
  of a robot's action.
* `ActionTable.dispatch_unclocked`, `ActionTable.finish_unclocked` — the actions of every domain.
* `ActionTable.Settled` — nothing is in flight, which preparing a table brings about.
-/

namespace PlanReplay

variable {α : Type}

namespace Robot

/-- Whether an action ends charging. -/
def Action.stopsCharge : Action → Bool
  | .stopCharge _ => true
  | .move _ _ _ | .pick _ _ _ | .drop _ _ _ | .travel _ _ _ _ | .startCharge _ => false

/-- The status of a robot without the point of time at which it began to charge. -/
def Status.unclocked (s : Status α) : Status α := { s with chargeStarted := none }

/-- Without that point of time, a status is a phase and the phase in which a travel lands. -/
theorem Status.unclocked_eq_iff {s s' : Status α} :
    s.unclocked = s'.unclocked ↔ s.phase = s'.phase ∧ s.landing = s'.landing := by
  simp [unclocked]

namespace Table

/-- The table without the points of time at which robots began to charge. -/
def unclocked (t : Table α) : Table α := { t with robots := t.robots.map fun _ status => status.unclocked }

@[simp] theorem status_unclocked (t : Table α) (robot : EntityId) :
    t.unclocked.status robot = (t.status robot).unclocked := by
  unfold status unclocked
  rw [OrderedMap.get?_map]
  cases t.robots.get? robot <;> rfl

@[simp] theorem phase_unclocked (t : Table α) (robot : EntityId) : t.unclocked.phase robot = t.phase robot := by
  unfold phase
  rw [status_unclocked]
  rfl

-- ---------------------------------------------------------------------------
-- The parts of an action
-- ---------------------------------------------------------------------------

section Parts

variable [Scalar α]

/-- The effects of an action do not depend on the clock, unless it ends charging. -/
theorem effects_unclocked (t : Table α) (w : World α) (clock clock' : α) {action : Action}
    (hAction : action.stopsCharge = false) : t.unclocked.effects w clock action = t.effects w clock' action := by
  cases action with
  | move robot start goal => rfl
  | pick ball room robot => rfl
  | drop ball room robot => rfl
  | travel robot start goal resume =>
    simp only [effects, travel, phase_unclocked]
    rfl
  | startCharge robot => simp only [effects, startCharge, phase_unclocked]
  | stopCharge robot => cases hAction

/-- What an action looks like does not depend on the clock, unless it ends charging. -/
theorem transition_unclocked (t : Table α) (w : World α) (a : TimedAction α) (clock clock' : α) {action : Action}
    (hAction : action.stopsCharge = false) :
    t.unclocked.transition w a clock action = t.transition w a clock' action := by
  cases action with
  | stopCharge robot => cases hAction
  | move | pick | drop | travel | startCharge => rfl

end Parts

section Alike

-- two tables that differ in points of time at most
variable {t t' : Table α} (hAlike : t.unclocked = t'.unclocked)

include hAlike

theorem status_alike (robot : EntityId) : (t.status robot).unclocked = (t'.status robot).unclocked := by
  rw [← status_unclocked, hAlike, status_unclocked]

theorem landing_alike (robot : EntityId) : (t.status robot).landing = (t'.status robot).landing :=
  (Status.unclocked_eq_iff.mp (status_alike hAlike robot)).2

/-- A robot enters a phase in both tables alike, if what else changes in its status changes alike. -/
theorem enter_alike (robot : EntityId) (phase : RobotPhase) {update update' : Status α → Status α}
    (hUpdate : ∀ s s', s.unclocked = s'.unclocked → (update s).unclocked = (update' s').unclocked) :
    (t.enter robot phase update).1.unclocked = (t'.enter robot phase update').1.unclocked ∧
      (t.enter robot phase update).2 = (t'.enter robot phase update').2 := by
  have hStatus := status_alike hAlike robot
  constructor
  · -- the entry of the robot is the same without the point of time, and so are all others
    have hEntry : ({ update (t.status robot) with phase := phase } : Status α).unclocked =
        ({ update' (t'.status robot) with phase := phase } : Status α).unclocked := by
      rw [Status.unclocked_eq_iff]
      exact ⟨rfl, (Status.unclocked_eq_iff.mp (hUpdate _ _ hStatus)).2⟩
    unfold unclocked at hAlike
    rw [mk.injEq] at hAlike
    obtain ⟨hParams, hDuration, hGripper, hRobots⟩ := hAlike
    unfold enter unclocked
    rw [mk.injEq]
    refine ⟨hParams, hDuration, hGripper, ?_⟩
    dsimp only
    rw [OrderedMap.map_insert, OrderedMap.map_insert, hEntry, hRobots]
  · unfold enter
    dsimp only
    rw [(Status.unclocked_eq_iff.mp hStatus).1]

/-- Both tables take an action in alike, unless it ends charging. -/
theorem commit_alike (after : World α) (clock clock' : α) {action : Action}
    (hAction : action.stopsCharge = false) :
    (t.commit after clock action).1.unclocked = (t'.commit after clock' action).1.unclocked ∧
      (t.commit after clock action).2 = (t'.commit after clock' action).2 := by
  cases action with
  | stopCharge robot => cases hAction
  | travel robot start goal resume =>
    refine enter_alike hAlike robot .moving ?_
    intro s s' hSame
    rw [Status.unclocked_eq_iff] at hSame ⊢
    exact ⟨hSame.1, rfl⟩
  | startCharge robot =>
    refine enter_alike hAlike robot .charging ?_
    intro s s' hSame
    exact hSame
  | move | pick | drop => exact ⟨hAlike, rfl⟩

/-- Both tables finish an action alike. -/
theorem finish_alike (action : Action) :
    (t.finish action).1.unclocked = (t'.finish action).1.unclocked ∧
      (t.finish action).2 = (t'.finish action).2 := by
  cases action with
  | travel robot start goal resume =>
    unfold finish
    dsimp only
    rw [landing_alike hAlike robot]
    cases (t'.status robot).landing with
    | none => exact ⟨hAlike, rfl⟩
    | some phase =>
      refine enter_alike hAlike robot phase ?_
      intro s s' hSame
      rw [Status.unclocked_eq_iff] at hSame ⊢
      exact ⟨hSame.1, rfl⟩
  | move | pick | drop | startCharge | stopCharge => exact ⟨hAlike, rfl⟩

end Alike

-- ---------------------------------------------------------------------------
-- Travels in flight
-- ---------------------------------------------------------------------------

/-- No robot is on the way to where it lands. -/
def Settled (t : Table α) : Prop := ∀ robot, (t.status robot).landing = none

/-- In a table in which nothing is in flight, nothing is left to land. -/
theorem settle_of_settled {t : Table α} (h : t.Settled) : t.settle = (t, []) := by
  -- a robot without an entry has nothing to land either
  have hEntry : ∀ {robot status}, t.robots.get? robot = some status → status.landing = none := by
    intro robot status hGet
    have hLanding := h robot
    rw [Table.status, hGet] at hLanding
    exact hLanding
  have hRobots : (t.robots.map fun _ status =>
      { status with phase := status.landing.getD status.phase, landing := none }) = t.robots := by
    refine OrderedMap.ext fun robot => ?_
    rw [OrderedMap.get?_map]
    cases hGet : t.robots.get? robot with
    | none => rfl
    | some status =>
      obtain ⟨phase, landing, started⟩ := status
      cases hEntry hGet
      rfl
  have hChanges : t.settle.2 = [] := by
    unfold settle
    dsimp only
    rw [List.filterMap_eq_nil_iff]
    rintro ⟨robot, status⟩ hMem
    dsimp only
    rw [hEntry (OrderedMap.mem_toList_iff.mp hMem)]
  refine Prod.ext ?_ hChanges
  unfold settle
  dsimp only
  rw [hRobots]

theorem status_enter (t : Table α) (robot other : EntityId) (phase : RobotPhase) (update : Status α → Status α) :
    (t.enter robot phase update).1.status other =
      if other = robot then { update (t.status robot) with phase := phase } else t.status other := by
  unfold enter status
  dsimp only
  rw [OrderedMap.get?_insert]
  split <;> rfl

/-- A robot that enters a phase, and no travel with it, leaves nothing in flight. -/
theorem settled_enter {t : Table α} {robot : EntityId} {phase : RobotPhase} {update : Status α → Status α}
    (hOthers : ∀ other, other ≠ robot → (t.status other).landing = none)
    (hUpdate : (update (t.status robot)).landing = none) : (t.enter robot phase update).1.Settled := by
  intro other
  rw [status_enter]
  split
  · exact hUpdate
  · rename_i hOther
    exact hOthers other hOther

/-- An action that is finished leaves nothing in flight that was not in flight before it. -/
theorem settled_finish {t : Table α} (h : t.Settled) (after : World α) (clock : α) (action : Action) :
    ((t.commit after clock action).1.finish action).1.Settled := by
  cases action with
  | travel robot start goal resume =>
    -- the travel sets a landing, which its end takes away
    unfold commit finish
    dsimp only
    rw [status_enter, if_pos rfl]
    refine settled_enter ?_ rfl
    intro other hOther
    rw [status_enter, if_neg hOther]
    exact h other
  | startCharge robot | stopCharge robot =>
    unfold commit finish
    dsimp only
    refine settled_enter ?_ ?_
    · exact fun other _ => h other
    · exact h robot
  | move | pick | drop => exact h

/-- In a table that has been prepared for a world nothing is in flight. -/
theorem settled_prepare (t : Table α) (w : World α) : (t.prepare w).1.Settled := by
  -- every robot is entered as it is before its first action
  have hFold : ∀ (robots : List EntityId) (known : OrderedMap EntityId (Status α)),
      (∀ robot, ((known.get? robot).getD .initial).landing = none) → ∀ robot,
        (((robots.foldl (fun statuses robot => statuses.insert robot .initial) known).get? robot).getD
          .initial).landing = none := by
    intro robots
    induction robots with
    | nil => exact fun known hKnown => hKnown
    | cons first rest ih =>
      intro known hKnown
      refine ih _ ?_
      intro robot
      rw [OrderedMap.get?_insert]
      split
      · rfl
      · exact hKnown robot
  exact hFold _ _ fun robot => rfl

end Table

end Robot

-- ---------------------------------------------------------------------------
-- The actions of every domain
-- ---------------------------------------------------------------------------

/-- Whether an action ends charging. -/
def DomainAction.stopsCharge : DomainAction → Bool
  | .robot action => action.stopsCharge
  | .elevator _ | .logistics _ | .wait => false

namespace ActionTable

/-- The table without the points of time at which robots began to charge. -/
def unclocked : ActionTable α → ActionTable α
  | elevator table => elevator table
  | logistics table => logistics table
  | robot table => robot table.unclocked

/-- Nothing is in flight. -/
def Settled : ActionTable α → Prop
  | elevator _ | logistics _ => True
  | robot table => table.Settled

/-- In a table in which nothing is in flight, nothing is left to land. -/
theorem settle_of_settled {t : ActionTable α} (h : t.Settled) : t.settle = (t, []) := by
  cases t with
  | elevator | logistics => rfl
  | robot table =>
    unfold settle
    dsimp only
    rw [Robot.Table.settle_of_settled h]

/-- Two tables that differ in points of time at most are equal, or are those of robots. -/
theorem unclocked_cases {t t' : ActionTable α} (hAlike : t.unclocked = t'.unclocked) :
    (t = t' ∧ t.domain ≠ .robot) ∨
      ∃ table table', t = robot table ∧ t' = robot table' ∧ table.unclocked = table'.unclocked := by
  cases t with
  | robot table =>
    cases t' with
    | robot table' => exact Or.inr ⟨table, table', rfl, rfl, robot.inj hAlike⟩
    | elevator | logistics => cases hAlike
  | elevator table =>
    cases t' with
    | elevator table' => exact Or.inl ⟨congrArg elevator (elevator.inj hAlike), nofun⟩
    | logistics | robot => cases hAlike
  | logistics table =>
    cases t' with
    | logistics table' => exact Or.inl ⟨congrArg logistics (logistics.inj hAlike), nofun⟩
    | elevator | robot => cases hAlike

theorem phase?_unclocked (t : ActionTable α) (id : EntityId) : t.unclocked.phase? id = t.phase? id := by
  cases t with
  | elevator | logistics => rfl
  | robot table => exact congrArg some (table.phase_unclocked id)

theorem decode_congr {t t' : ActionTable α} (hDomain : t.domain = t'.domain) (a : TimedAction α) :
    t.decode a = t'.decode a := by
  cases t <;> cases t' <;> first | rfl | cases hDomain

/-- Only an action with the name of that action ends charging. -/
theorem decode_stopsCharge {t : ActionTable α} {a : TimedAction α} {action : DomainAction}
    (hName : a.name ≠ "stopcharge") (hDecode : t.decode a = .ok action) : action.stopsCharge = false := by
  -- in the domain of robots the name decides the constructor
  have hRobot : ∀ {robotAction : Robot.Action}, Robot.Action.decode a = .ok robotAction →
      robotAction.stopsCharge = false := by
    intro robotAction hRobotDecode
    unfold Robot.Action.decode at hRobotDecode
    split at hRobotDecode
    case h_7 hStop => exact absurd hStop hName
    case h_8 => cases hRobotDecode
    all_goals
      first
      | unfold Robot.Action.decodeThree at hRobotDecode
      | unfold Robot.Action.decodeOne at hRobotDecode
      split at hRobotDecode <;> cases hRobotDecode
      rfl
  unfold decode at hDecode
  split at hDecode
  · cases hDecode
    rfl
  · cases t with
    | elevator table =>
      cases hInner : Elevator.Action.decode a <;> rw [hInner] at hDecode <;> cases hDecode
      rfl
    | logistics table =>
      cases hInner : Logistics.Action.decode a <;> rw [hInner] at hDecode <;> cases hDecode
      rfl
    | robot table =>
      cases hInner : Robot.Action.decode a <;> rw [hInner] at hDecode <;> cases hDecode
      exact hRobot hInner

theorem domain_finish (t : ActionTable α) (action : DomainAction) : (t.finish action).1.domain = t.domain := by
  unfold finish
  split <;> rfl

/-- Tables that differ in points of time at most finish an action alike. -/
theorem finish_alike {t t' : ActionTable α} (hAlike : t.unclocked = t'.unclocked) (action : DomainAction) :
    (t.finish action).1.unclocked = (t'.finish action).1.unclocked ∧
      (t.finish action).2 = (t'.finish action).2 := by
  rcases unclocked_cases hAlike with ⟨rfl, -⟩ | ⟨table, table', rfl, rfl, hTable⟩
  · exact ⟨rfl, rfl⟩
  · cases action with
    | robot action =>
      obtain ⟨hFirst, hSecond⟩ := Robot.Table.finish_alike hTable action
      exact ⟨congrArg robot hFirst, hSecond⟩
    | elevator | logistics | wait => exact ⟨hAlike, rfl⟩

/-- Whether anything is in flight does not depend on points of time. -/
theorem settled_alike {t t' : ActionTable α} (hAlike : t.unclocked = t'.unclocked) (h : t.Settled) :
    t'.Settled := by
  rcases unclocked_cases hAlike with ⟨rfl, -⟩ | ⟨table, table', rfl, rfl, hTable⟩
  · exact h
  · intro id
    rw [← Robot.Table.landing_alike hTable id]
    exact h id

section Dispatch

variable [Scalar α]

/-- What a dispatch leads to, without the points of time. -/
def unclockedResult (result : ActionTable α × World α × Applied α) : ActionTable α × World α × Applied α :=
  (result.1.unclocked, result.2)

/-- Tables that differ in points of time at most dispatch an action alike, at whatever time, unless it ends
charging. -/
theorem dispatch_alike {t t' : ActionTable α} (hAlike : t.unclocked = t'.unclocked) {action : DomainAction}
    (hAction : action.stopsCharge = false) (a : TimedAction α) (w : World α) (clock clock' : α) :
    (t.dispatch action a w clock).map unclockedResult = (t'.dispatch action a w clock').map unclockedResult := by
  rcases unclocked_cases hAlike with ⟨rfl, hDomain⟩ | ⟨table, table', rfl, rfl, hTable⟩
  · cases t with
    | elevator | logistics => cases action <;> rfl
    | robot => exact absurd rfl hDomain
  · cases action with
    | wait =>
      unfold dispatch
      exact congrArg (fun table => Except.ok (table, w, _)) hAlike
    | elevator | logistics => rfl
    | robot action =>
      unfold dispatch
      dsimp only
      -- first the effects, then what the world after them leads to
      rw [← table.effects_unclocked w clock clock hAction, ← table'.effects_unclocked w clock clock' hAction,
        hTable]
      cases w.attempt action.referenced (refusing (table'.unclocked.effects w clock action)) with
      | error failure => rfl
      | ok next =>
        obtain ⟨hAfter, hChanges⟩ := Robot.Table.commit_alike hTable next clock clock' hAction
        dsimp only
        rw [← table.transition_unclocked w a clock clock hAction,
          ← table'.transition_unclocked w a clock clock' hAction, hTable, hChanges]
        exact congrArg (fun table => Except.ok (robot table, next, _)) hAfter

theorem domain_dispatch {t table : ActionTable α} {action : DomainAction} {a : TimedAction α} {w world : World α}
    {clock : α} {applied : Applied α} (h : t.dispatch action a w clock = .ok (table, world, applied)) :
    table.domain = t.domain := by
  unfold dispatch at h
  split at h
  case h_1 =>
    cases h
    rfl
  case h_2 | h_3 | h_4 =>
    split at h
    · cases h
      rfl
    · cases h
  case h_5 | h_6 | h_7 => cases h

/-- An action that is accepted and finished leaves nothing in flight that was not in flight before it. -/
theorem settled_finish {t table : ActionTable α} {action : DomainAction} {a : TimedAction α} {w world : World α}
    {clock : α} {applied : Applied α} (hSettled : t.Settled)
    (h : t.dispatch action a w clock = .ok (table, world, applied)) : (table.finish action).1.Settled := by
  unfold dispatch at h
  split at h
  case h_1 =>
    cases h
    cases t <;> exact hSettled
  case h_2 | h_3 =>
    split at h
    · cases h
      trivial
    · cases h
  case h_4 robotTable action' =>
    split at h
    · cases h
      exact Robot.Table.settled_finish hSettled _ _ _
    · cases h
  case h_5 | h_6 | h_7 => cases h

/-- In a table that has been prepared for a world nothing is in flight. -/
theorem settled_prepare {t table : ActionTable α} {w world : World α} (h : t.prepare w = .ok (table, world)) :
    table.Settled := by
  unfold prepare at h
  cases t with
  | elevator | logistics =>
    dsimp only at h
    split at h
    · cases h
      trivial
    · cases h
  | robot robots =>
    dsimp only at h
    split at h
    · cases h
      exact robots.settled_prepare w
    · cases h

end Dispatch

end ActionTable

end PlanReplay

import PlanReplay.Proofs.Domain.Crash
import PlanReplay.Proofs.Domain.Phase
import PlanReplay.Proofs.Domain.Simulation
import PlanReplay.Proofs.Robot.Effects

/-!
# Runs of robots

A call on robots ends travels, or carries out one action. What it comes to is an event, and what an event does to one
robot is said here once; a law of runs is then a lemma about steps and the induction over runs.

* `Robot.Action.traveller?`, `Robot.Action.goes?`, `Robot.Action.enters?` — whom an action concerns.
* `Robot.Event`, `Simulation.event` — what a call comes to.
* `Robot.Step` — what an event does to a table and a world; `Robot.Step.about` — what it does to one robot.
* `Robot.Fit` — what holds along every run, `Simulation.run_fit`.
* `Simulation.run_robot` — what every step of an allowed event keeps, a run of such events keeps.
-/

namespace PlanReplay

variable {α : Type}

namespace Robot

-- ---------------------------------------------------------------------------
-- Whom an action concerns
-- ---------------------------------------------------------------------------

namespace Action

/-- The robot whose travel begins with an action, and lands when the action is finished. -/
def traveller? : Action → Option EntityId
  | .travel robot _ _ _ => some robot
  | .move _ _ _ | .pick _ _ _ | .drop _ _ _ | .startCharge _ | .stopCharge _ => none

/-- The robot that goes to another room, by a hop or by a travel. -/
def goes? : Action → Option EntityId
  | .move robot _ _ | .travel robot _ _ _ => some robot
  | .pick _ _ _ | .drop _ _ _ | .startCharge _ | .stopCharge _ => none

/-- The robot that enters a phase with an action. -/
def enters? : Action → Option EntityId
  | .travel robot _ _ _ | .startCharge robot | .stopCharge robot => some robot
  | .move _ _ _ | .pick _ _ _ | .drop _ _ _ => none

theorem enters?_of_traveller? {action : Action} {robot : EntityId} (h : action.traveller? = some robot) :
    action.enters? = some robot := by
  cases action with
  | travel => exact h
  | move | pick | drop | startCharge | stopCharge => cases h

end Action

-- ---------------------------------------------------------------------------
-- Statuses
-- ---------------------------------------------------------------------------

/-- The status of a robot whose travel lands, if there is one in flight. -/
def Status.landed (s : Status α) : Status α := { s with phase := s.landing.getD s.phase, landing := none }

theorem Status.landed_of_none {s : Status α} (h : s.landing = none) : s.landed = s := by
  unfold landed
  rw [h, Option.getD_none, ← h]

namespace Table

/-- The end of an action lands its traveller. -/
theorem status_finish (t : Table α) (action : Action) (robot : EntityId) :
    (t.finish action).1.status robot =
      if action.traveller? = some robot then (t.status robot).landed else t.status robot := by
  cases action with
  | travel traveller start goal resume =>
    unfold finish Action.traveller?
    dsimp only
    by_cases hSame : robot = traveller
    · subst hSame
      rw [if_pos rfl]
      cases hLanding : (t.status robot).landing with
      | none => exact (Status.landed_of_none hLanding).symm
      | some phase =>
        dsimp only
        rw [status_enter, if_pos rfl, Status.landed, hLanding, Option.getD_some]
    · rw [if_neg fun h => hSame (Option.some.inj h).symm]
      split
      · rw [status_enter, if_neg hSame]
      · rfl
  | move | pick | drop | startCharge | stopCharge => rfl

/-- An accepted action keeps the status of whoever does not enter a phase. -/
theorem status_commit_of_other (t : Table α) (after : World α) (clock : α) {action : Action} {robot : EntityId}
    (h : action.enters? ≠ some robot) : (t.commit after clock action).1.status robot = t.status robot := by
  cases action with
  | travel other start goal resume =>
    rw [commit, status_enter, if_neg fun hSame => h (congrArg some hSame.symm)]
  | startCharge other | stopCharge other =>
    rw [commit, status_enter, if_neg fun hSame => h (congrArg some hSame.symm)]
  | move | pick | drop => rfl

/-- The end of an action changes nothing but statuses. -/
theorem finish_eq (t : Table α) (action : Action) :
    (t.finish action).1 = { t with robots := (t.finish action).1.robots } := by
  cases action with
  | travel robot start goal resume =>
    unfold finish
    dsimp only
    split <;> rfl
  | move | pick | drop | startCharge | stopCharge => rfl

/-- An accepted action changes nothing of the table but statuses. -/
theorem commit_eq (t : Table α) (after : World α) (clock : α) (action : Action) :
    (t.commit after clock action).1 = { t with robots := (t.commit after clock action).1.robots } := by
  cases action <;> rfl

end Table

-- ---------------------------------------------------------------------------
-- Steps
-- ---------------------------------------------------------------------------

/-- What a call comes to. -/
inductive Event where
  /-- Nothing changes: a call is rejected, a wait is accepted, or something ends that is no action of a robot. -/
  | rest
  | finish (action : Action)
  | settle
  | act (action : Action)

/-- The travel of a robot lands, if one is in flight. -/
def Event.Lands (robot : EntityId) : Event → Prop
  | .finish action => action.traveller? = some robot
  | .settle => True
  | .rest | .act _ => False

instance (robot : EntityId) : (event : Event) → Decidable (event.Lands robot)
  | .finish action => inferInstanceAs (Decidable (action.traveller? = some robot))
  | .settle => isTrue trivial
  | .rest | .act _ => isFalse id

section

variable [Scalar α]

/-- What an event does to a table and a world. -/
inductive Step (t : Table α) (w : World α) : Event → Table α → World α → Prop where
  | rest : Step t w .rest t w
  | finish (action : Action) : Step t w (.finish action) (t.finish action).1 w
  | settle : Step t w .settle t.settle.1 w
  | act {clock : α} {action : Action} {effects : List (Effect α)} {next : World α}
      (hEffects : t.effects w clock action = .ok effects) (hApply : w.applyEffects effects = .ok next) :
      Step t w (.act action) (t.commit next clock action).1 next

/-- What holds of a table and a world along every run: the table keeps its parameters and agrees with itself, and the
world keeps its rules. -/
structure Fit (params : RobotParams α) (t : Table α) (w : World α) : Prop where
  params : t.params = params
  coherent : t.Coherent
  sound : w.Sound

variable {params : RobotParams α} {t next : Table α} {w after : World α} {event : Event}

/-- A step changes nothing of the table but statuses. -/
theorem Step.table_eq (h : Step t w event next after) : next = { t with robots := next.robots } := by
  cases h with
  | rest | settle => rfl
  | finish action => exact t.finish_eq action
  | act => exact t.commit_eq _ _ _

theorem Step.sound (h : Step t w event next after) (hSound : w.Sound) : after.Sound := by
  cases h with
  | rest | finish | settle => exact hSound
  | act hEffects hApply => exact World.applyEffects_sound hSound hApply

theorem Step.coherent (h : Step t w event next after) (hCoherent : t.Coherent) : next.Coherent := by
  cases h with
  | rest => exact hCoherent
  | finish action => exact (Table.finish_leads hCoherent action).coherent
  | settle => exact (Table.settle_leads hCoherent).coherent
  | act hEffects hApply => exact (Table.commit_leads hCoherent hEffects _).coherent

theorem Fit.step (h : Fit params t w) (hStep : Step t w event next after) : Fit params next after := by
  refine ⟨?_, hStep.coherent h.coherent, hStep.sound h.sound⟩
  rw [hStep.table_eq]
  exact h.params

/-- Levels keep their values, but for those of a robot that travels and the battery of one that ends charging. -/
theorem level?_of_act {clock : α} {action : Action} {effects : List (Effect α)}
    (hEffects : t.effects w clock action = .ok effects) (hApply : w.applyEffects effects = .ok after)
    {key : ResourceKey} {robot : EntityId} (hTravel : action.traveller? ≠ some robot)
    (hStop : action = .stopCharge robot → key ≠ .battery) : after.level? robot key = w.level? robot key := by
  obtain ⟨-, staged, hStaged, -, rfl⟩ := World.applyEffects_eq_ok_iff.mp hApply
  refine State.fluent_of_spared ?_ hStaged
  intro effect hEffect hFluent
  rcases Table.fluent_of_effects hEffects hEffect hFluent with
    ⟨other, start, goal, resume, rfl, hBattery | hLeft⟩ | ⟨other, rfl, hBattery⟩
  · cases hBattery
    exact hTravel rfl
  · cases hLeft
    exact hTravel rfl
  · cases hBattery
    exact hStop rfl rfl

/-- An action keeps the levels of whoever does not enter a phase with it. -/
theorem level?_of_other {clock : α} {action : Action} {effects : List (Effect α)}
    (hEffects : t.effects w clock action = .ok effects) (hApply : w.applyEffects effects = .ok after) {robot : EntityId}
    (hOther : action.enters? ≠ some robot) (key : ResourceKey) : after.level? robot key = w.level? robot key := by
  refine level?_of_act hEffects hApply (fun hTravels => hOther (Action.enters?_of_traveller? hTravels)) ?_
  rintro rfl
  exact absurd rfl hOther

/-- What a step comes to for one robot. A travel of it lands, or nothing about it changes, or it enters a phase with an
action that is accepted. -/
theorem Step.about (h : Step t w event next after) (robot : EntityId) :
    (event.Lands robot ∧ next.status robot = (t.status robot).landed ∧ after = w) ∨
      (¬ event.Lands robot ∧ next.status robot = t.status robot ∧
        ∀ key, after.level? robot key = w.level? robot key) ∨
      ∃ clock action effects, event = .act action ∧ action.enters? = some robot ∧
        t.effects w clock action = .ok effects ∧ w.applyEffects effects = .ok after ∧
        next = (t.commit after clock action).1 := by
  cases h with
  | rest => exact Or.inr (Or.inl ⟨id, rfl, fun _ => rfl⟩)
  | finish action =>
    rw [Table.status_finish]
    split
    · rename_i hTravels
      exact Or.inl ⟨hTravels, rfl, rfl⟩
    · rename_i hOther
      exact Or.inr (Or.inl ⟨hOther, rfl, fun _ => rfl⟩)
  | settle => exact Or.inl ⟨trivial, t.status_settle robot, rfl⟩
  | @act clock action effects _ hEffects hApply =>
    by_cases hEnters : action.enters? = some robot
    · exact Or.inr (Or.inr ⟨clock, action, effects, rfl, hEnters, hEffects, hApply, rfl⟩)
    · exact Or.inr (Or.inl
        ⟨id, Table.status_commit_of_other t after clock hEnters, level?_of_other hEffects hApply hEnters⟩)

end

end Robot

-- ---------------------------------------------------------------------------
-- Dispatches
-- ---------------------------------------------------------------------------

namespace ActionTable

variable [Scalar α] {t : Robot.Table α} {table : ActionTable α} {w next : World α}

/-- In the domain of robots an accepted action is a wait, or the world accepts its effects. -/
theorem dispatch_robot_cases {action : DomainAction} {a : TimedAction α} {clock : α} {applied : Applied α}
    (h : (robot t).dispatch action a w clock = .ok (table, next, applied)) :
    (action = .wait ∧ table = robot t ∧ next = w) ∨
      ∃ act effects, action = .robot act ∧ t.effects w clock act = .ok effects ∧ w.applyEffects effects = .ok next ∧
        table = robot (t.commit next clock act).1 ∧ applied.transition = t.transition w a clock act := by
  cases action with
  | wait =>
    cases h
    exact Or.inl ⟨rfl, rfl, rfl⟩
  | elevator action | logistics action => cases h
  | robot action =>
    simp only [dispatch] at h
    split at h
    · rename_i hAttempt
      cases h
      obtain ⟨effects, hEffects, hApply⟩ := World.effects_of_attempt hAttempt
      exact Or.inr ⟨action, effects, rfl, refusing_eq_ok_iff.mp hEffects, hApply, rfl, rfl⟩
    · cases h

/-- Preparing a table of robots gives a battery to those that have none. -/
theorem prepare_robot (h : (robot t).prepare w = .ok (table, next)) :
    table = robot (t.prepare w).1 ∧ w.applyEffects (t.prepare w).2 = .ok next := by
  unfold prepare at h
  dsimp only at h
  split at h
  · rename_i hApply
    cases h
    exact ⟨rfl, hApply⟩
  · cases h

/-- Preparing a table of robots keeps all levels but those of batteries. -/
theorem level?_of_prepare_robot (h : (robot t).prepare w = .ok (table, next)) {key : ResourceKey} (hKey : key ≠ .battery)
    (entity : EntityId) : next.level? entity key = w.level? entity key := by
  obtain ⟨-, staged, hStaged, -, rfl⟩ := World.applyEffects_eq_ok_iff.mp (prepare_robot h).2
  refine State.fluent_of_spared ?_ hStaged
  intro effect hEffect hFluent
  obtain ⟨robot, -, rfl⟩ := List.mem_map.mp hEffect
  cases hFluent
  exact hKey rfl

/-- Preparing a table of robots gives levels to robots, and changes nothing else. -/
theorem rest_of_prepare_robot (h : (robot t).prepare w = .ok (table, next)) :
    next.state.relations = w.state.relations ∧ next.state.facts = w.state.facts := by
  obtain ⟨-, staged, hStaged, -, rfl⟩ := World.applyEffects_eq_ok_iff.mp (prepare_robot h).2
  refine State.rest_of_fluents ?_ hStaged
  intro effect hEffect
  obtain ⟨robot, -, rfl⟩ := List.mem_map.mp hEffect
  exact nofun

end ActionTable

namespace Simulation

variable [Scalar α]

/-- What a call comes to in the domain of robots. -/
def event (s : Simulation α) (call : SimulationCall α) : Robot.Event :=
  match call with
  | .dispatch _ _ _ =>
    match s.accepted? call with
    | some (.robot action) => .act action
    | _ => .rest
  | .finish (.robot action) => .finish action
  | .finish _ => .rest
  | .settle => .settle

/-- What a sequence of calls comes to. -/
def events (s : Simulation α) : List (SimulationCall α) → List Robot.Event
  | [] => []
  | call :: rest => s.event call :: (s.perform call).events rest

/-- A call on robots is a step of its event. -/
theorem perform_robot {t : Robot.Table α} {s : Simulation α} (hTable : s.table = .robot t) (call : SimulationCall α) :
    ∃ next, (s.perform call).table = .robot next ∧
      Robot.Step t s.world (s.event call) next (s.perform call).world := by
  obtain ⟨table, w⟩ := s
  subst hTable
  cases call with
  | settle => exact ⟨_, rfl, .settle⟩
  | finish action =>
    cases action with
    | robot action => exact ⟨_, rfl, .finish action⟩
    | elevator | logistics | wait => exact ⟨t, rfl, .rest⟩
  | dispatch action timed clock =>
    unfold event perform accepted?
    dsimp only
    cases hDispatch : (ActionTable.robot t).dispatch action timed w clock with
    | error rejection => exact ⟨t, rfl, .rest⟩
    | ok result =>
      rcases ActionTable.dispatch_robot_cases hDispatch with
        ⟨rfl, hSame, hWorld⟩ | ⟨act, effects, rfl, hEffects, hApply, hNext, -⟩
      · refine ⟨t, hSame, ?_⟩
        rw [← hWorld]
        exact .rest
      · exact ⟨_, hNext, .act hEffects hApply⟩

/-- The program ends in no call on robots. -/
theorem crash?_robot {t : Robot.Table α} {s : Simulation α} (hTable : s.table = .robot t) (call : SimulationCall α) :
    s.crash? call = none := by
  cases call with
  | finish | settle => rfl
  | dispatch action timed clock =>
    unfold crash?
    dsimp only
    split
    · rename_i crash hDispatch
      obtain ⟨table, act, hElevator, -⟩ := ActionTable.dispatch_crash_iff.mp hDispatch
      cases hTable.symm.trans hElevator
    · rfl
    · rfl

/-- Calls on robots follow on each other. -/
theorem run_append_robot (first second : List (SimulationCall α)) : ∀ {t : Robot.Table α} {s : Simulation α},
    s.table = .robot t → s.run (first ++ second) = (s.run first).run second := by
  induction first with
  | nil => exact fun _ => rfl
  | cons call rest ih =>
    intro t s hTable
    obtain ⟨next, hNext, -⟩ := perform_robot hTable call
    have hCrash := crash?_robot hTable call
    rw [List.cons_append, run_cons hCrash, run_cons hCrash, ih hNext]

/-- The actions among the events are those that the calls carry out. -/
theorem mem_accepted_of_event {action : Robot.Action} (calls : List (SimulationCall α)) :
    ∀ {t : Robot.Table α} {s : Simulation α}, s.table = .robot t →
      .act action ∈ s.events calls → .robot action ∈ s.accepted calls := by
  induction calls with
  | nil => exact fun _ h => absurd h List.not_mem_nil
  | cons call rest ih =>
    intro t s hTable h
    rw [accepted_cons (crash?_robot hTable call)]
    rcases List.mem_cons.mp h with hHere | hLater
    · refine List.mem_append_left _ (Option.mem_toList.mpr ?_)
      unfold event at hHere
      split at hHere
      · split at hHere
        · cases hHere
          assumption
        · cases hHere
      all_goals cases hHere
    · obtain ⟨next, hNext, -⟩ := perform_robot hTable call
      exact List.mem_append_right _ (ih hNext hLater)

/-- An action for which the table finds no effects is rejected, and changes nothing. -/
theorem rejected_robot {t : Robot.Table α} {s : Simulation α} (hTable : s.table = .robot t) {action : Robot.Action}
    {clock : α} (h : ∀ effects, t.effects s.world clock action ≠ .ok effects) (timed : TimedAction α) :
    (∃ rejection, s.table.dispatch (.robot action) timed s.world clock = .error (.refused rejection)) ∧
      s.perform (.dispatch (.robot action) timed clock) = s := by
  unfold perform
  dsimp only
  cases hDispatch : s.table.dispatch (.robot action) timed s.world clock with
  | error failure =>
    cases failure with
    | refused rejection => exact ⟨⟨rejection, rfl⟩, rfl⟩
    | crashed crash =>
      rw [hTable] at hDispatch
      exact absurd hDispatch ActionTable.dispatch_robot_not_crashed
  | ok result =>
    rw [hTable] at hDispatch
    rcases ActionTable.dispatch_robot_cases hDispatch with ⟨hWait, -⟩ | ⟨act, effects, hSame, hEffects, -⟩
    · cases hWait
    · cases hSame
      exact absurd hEffects (h effects)

/-- What holds at first and is kept by every step of an allowed event holds after a run of such events. -/
theorem run_robot {motive : Robot.Table α → World α → Prop} (allowed : Robot.Event → Prop)
    (hStep : ∀ {t w event next after}, motive t w → allowed event → Robot.Step t w event next after → motive next after)
    (calls : List (SimulationCall α)) : ∀ {s : Simulation α} {t : Robot.Table α},
      s.table = .robot t → motive t s.world → (∀ event ∈ s.events calls, allowed event) →
        ∃ last, (s.run calls).table = .robot last ∧ motive last (s.run calls).world := by
  induction calls with
  | nil => exact fun {s t} hTable hFirst _ => ⟨t, hTable, hFirst⟩
  | cons call rest ih =>
    intro s t hTable hFirst hAllowed
    obtain ⟨hHere, hLater⟩ := List.forall_mem_cons.mp hAllowed
    obtain ⟨next, hNext, hCall⟩ := perform_robot hTable call
    rw [run_cons (crash?_robot hTable call)]
    exact ih hNext (hStep hFirst hHere hCall) hLater

/-- A table that is prepared for a sound world fits it. -/
theorem fit_of_prepare {t : Robot.Table α} {table : ActionTable α} {w start : World α} (hSound : w.Sound)
    (hPrepare : (ActionTable.robot t).prepare w = .ok (table, start)) :
    table = .robot (t.prepare w).1 ∧ Robot.Fit t.params (t.prepare w).1 start := by
  obtain ⟨hTable, hApply⟩ := ActionTable.prepare_robot hPrepare
  exact ⟨hTable, rfl, t.coherent_prepare w, World.applyEffects_sound hSound hApply⟩

/-- Along a run of a prepared table the table and the world fit. -/
theorem run_fit {t : Robot.Table α} {table : ActionTable α} {w start : World α} (hSound : w.Sound)
    (hPrepare : (ActionTable.robot t).prepare w = .ok (table, start)) (calls : List (SimulationCall α)) :
    ∃ last, ((Simulation.mk table start).run calls).table = .robot last ∧
      Robot.Fit t.params last ((Simulation.mk table start).run calls).world := by
  obtain ⟨hTable, hFit⟩ := fit_of_prepare hSound hPrepare
  exact run_robot (s := ⟨table, start⟩) (motive := Robot.Fit t.params) (fun _ => True)
    (fun hFit _ hStep => hFit.step hStep) calls hTable hFit (fun _ _ => trivial)

end Simulation

end PlanReplay

import PlanReplay.Proofs.Domain.Deed
import PlanReplay.Proofs.Domain.Unclocked

/-!
# Phases of robots

What a robot is doing is a small machine with five phases. Three places of the table change it, when an action is
committed, when a transition is finished and when everything is settled, and all three keep the rest of a robot's
status in agreement with its phase.

* `PhaseStep`, `PhasePath` — the changes of phase that there are, and changes that follow one another.
* `Robot.Status.Coherent` — a landing is pending exactly on the way, a charge has begun exactly while charging.
* `Robot.Table.Leads` — what lies between two tables: the second is coherent again, and the changes that were
  reported lead each robot from its phase in the first to its phase in the second.
* `ActionTable.calls_robot` — every sequence of calls leads from a coherent table to where it ends.
* `ActionTable.Attended` — who is on the way is the robot of the action that runs.
-/

namespace PlanReplay

variable {α : Type}

-- ---------------------------------------------------------------------------
-- The machine of phases
-- ---------------------------------------------------------------------------

/-- The changes of phase that there are. -/
inductive PhaseStep : RobotPhase → RobotPhase → Prop where
  | setOff : PhaseStep .idle .moving
  | goOn : PhaseStep .arrived .moving
  | arrive : PhaseStep .moving .arrived
  | strand : PhaseStep .moving .batteryDead
  | charge {phase : RobotPhase} (hPhase : phase = .idle ∨ phase = .arrived ∨ phase = .batteryDead) :
      PhaseStep phase .charging
  | unplug : PhaseStep .charging .idle

theorem PhaseStep.ne {before after : RobotPhase} (h : PhaseStep before after) : before ≠ after := by
  cases h with
  | charge hPhase =>
    rintro rfl
    simp at hPhase
  | setOff | goOn | arrive | strand | unplug => decide

/-- Changes that follow one another, from a first phase to a last one. -/
def PhasePath : RobotPhase → List PhaseChange → RobotPhase → Prop
  | first, [], last => first = last
  | first, change :: rest, last => change.before = first ∧ PhasePath change.after rest last

theorem PhasePath.append {changes more : List PhaseChange} {middle last : RobotPhase}
    (hMore : PhasePath middle more last) :
    ∀ {first : RobotPhase}, PhasePath first changes middle → PhasePath first (changes ++ more) last := by
  induction changes with
  | nil =>
    rintro first rfl
    exact hMore
  | cons change rest ih =>
    rintro first ⟨hBefore, hRest⟩
    exact ⟨hBefore, ih hRest⟩

/-- The changes of one robot. -/
def changesOf (robot : EntityId) (changes : List PhaseChange) : List PhaseChange :=
  changes.filter fun change => change.robot = robot

theorem changesOf_append (robot : EntityId) (changes more : List PhaseChange) :
    changesOf robot (changes ++ more) = changesOf robot changes ++ changesOf robot more :=
  List.filter_append ..

-- ---------------------------------------------------------------------------
-- One entry of a map
-- ---------------------------------------------------------------------------

namespace OrderedMap

variable {κ ν β : Type} [Ord κ] [DecidableEq κ] [Std.LawfulEqOrd κ]

/-- Of what is read from the entries of a map, that of one key is what is read from its entry. -/
theorem filter_filterMap_toList (m : OrderedMap κ ν) {read : κ × ν → Option β} {isOf : β → Bool} {k : κ}
    (hOf : ∀ entry b, read entry = some b → (isOf b = true ↔ entry.1 = k)) :
    (m.toList.filterMap read).filter isOf = ((m.get? k).bind fun v => read (k, v)).toList := by
  have hDistinct := m.distinct_keys
  unfold get?
  revert hDistinct
  induction m.toList with
  | nil => exact fun _ => rfl
  | cons entry rest ih =>
    intro hDistinct
    obtain ⟨c, w⟩ := entry
    obtain ⟨hAway, hRest⟩ := List.pairwise_cons.mp hDistinct
    have hLater := ih hRest
    by_cases hKey : k = c
    · -- no later entry has the key
      subst hKey
      have hAbsent : lookupEntry k rest = none := by
        cases hFound : lookupEntry k rest with
        | none => rfl
        | some v => exact absurd rfl (hAway (k, v) (mem_of_lookupEntry_eq_some hFound))
      rw [hAbsent, Option.bind_none, Option.toList_none] at hLater
      rw [lookupEntry_cons, if_pos rfl, Option.bind_some]
      cases hRead : read (k, w) with
      | none => rw [List.filterMap_cons_none hRead, hLater, Option.toList_none]
      | some b =>
        rw [List.filterMap_cons_some hRead, List.filter_cons_of_pos ((hOf _ _ hRead).mpr rfl), hLater,
          Option.toList_some]
    · rw [lookupEntry_cons, if_neg hKey, ← hLater]
      cases hRead : read (c, w) with
      | none => rw [List.filterMap_cons_none hRead]
      | some b =>
        have hOther : ¬ isOf b = true := fun hIs => hKey ((hOf _ _ hRead).mp hIs).symm
        rw [List.filterMap_cons_some hRead, List.filter_cons_of_neg hOther]

end OrderedMap

namespace Robot

-- ---------------------------------------------------------------------------
-- Coherent tables
-- ---------------------------------------------------------------------------

/-- The status of a robot says what its phase asks for, and no more. -/
structure Status.Coherent (s : Status α) : Prop where
  lands : s.landing.isSome = true ↔ s.phase = .moving
  landing : ∀ phase, s.landing = some phase → phase = .arrived ∨ phase = .batteryDead
  charges : s.chargeStarted.isSome = true ↔ s.phase = .charging

theorem Status.coherent_initial : (Status.initial : Status α).Coherent :=
  ⟨by simp [initial], by simp [initial], by simp [initial]⟩

/-- A robot that is not on the way has nothing to land. -/
theorem Status.Coherent.landing_eq_none {s : Status α} (h : s.Coherent) (hPhase : s.phase ≠ .moving) :
    s.landing = none := by
  cases hLanding : s.landing with
  | none => rfl
  | some phase => exact absurd (h.lands.mp (by rw [hLanding]; rfl)) hPhase

/-- A robot that does not charge has not begun to. -/
theorem Status.Coherent.chargeStarted_eq_none {s : Status α} (h : s.Coherent) (hPhase : s.phase ≠ .charging) :
    s.chargeStarted = none := by
  cases hStarted : s.chargeStarted with
  | none => rfl
  | some started => exact absurd (h.charges.mp (by rw [hStarted]; rfl)) hPhase

/-- A robot that is on the way can land, and its status is coherent once it has. -/
theorem Status.Coherent.land {s : Status α} (h : s.Coherent) {phase : RobotPhase} (hLanding : s.landing = some phase) :
    PhaseStep s.phase phase ∧ ({ s with phase := phase, landing := none } : Status α).Coherent := by
  have hMoving : s.phase = .moving := h.lands.mp (by rw [hLanding]; rfl)
  have hStarted : s.chargeStarted = none := h.chargeStarted_eq_none (by rw [hMoving]; decide)
  rw [hMoving]
  rcases h.landing phase hLanding with rfl | rfl
  · exact ⟨.arrive, by simp, by simp, by simp [hStarted]⟩
  · exact ⟨.strand, by simp, by simp, by simp [hStarted]⟩

namespace Table

/-- Every status of a table is coherent. -/
def Coherent (t : Table α) : Prop := ∀ robot, (t.status robot).Coherent

/-- In a table that has been prepared for a world every robot is as before its first action. -/
theorem status_prepare (t : Table α) (w : World α) (robot : EntityId) : (t.prepare w).1.status robot = .initial := by
  have hFold : ∀ (robots : List EntityId) (known : OrderedMap EntityId (Status α)),
      (known.get? robot).getD .initial = .initial →
        ((robots.foldl (fun statuses robot => statuses.insert robot .initial) known).get? robot).getD .initial =
          .initial := by
    intro robots
    induction robots with
    | nil => exact fun known hKnown => hKnown
    | cons first rest ih =>
      intro known hKnown
      refine ih _ ?_
      rw [OrderedMap.get?_insert]
      split
      · rfl
      · exact hKnown
  exact hFold _ _ rfl

theorem coherent_prepare (t : Table α) (w : World α) : (t.prepare w).1.Coherent := by
  intro robot
  rw [status_prepare]
  exact Status.coherent_initial

theorem phase_prepare (t : Table α) (w : World α) (robot : EntityId) : (t.prepare w).1.phase robot = .idle := by
  rw [phase, status_prepare]
  rfl

-- ---------------------------------------------------------------------------
-- From one table to another
-- ---------------------------------------------------------------------------

/-- What lies between two tables: the second one is coherent, each change is one that there is, and the changes lead
each robot from phase to phase. -/
structure Leads (t next : Table α) (changes : List PhaseChange) : Prop where
  coherent : next.Coherent
  steps : ∀ change ∈ changes, PhaseStep change.before change.after
  path : ∀ robot, PhasePath (t.phase robot) (changesOf robot changes) (next.phase robot)

theorem Leads.refl {t : Table α} (h : t.Coherent) : t.Leads t [] := ⟨h, by simp, fun _ => rfl⟩

theorem Leads.trans {t middle last : Table α} {changes more : List PhaseChange} (h : t.Leads middle changes)
    (hMore : middle.Leads last more) : t.Leads last (changes ++ more) := by
  refine ⟨hMore.coherent, ?_, ?_⟩
  · intro change hChange
    rcases List.mem_append.mp hChange with hFirst | hSecond
    · exact h.steps change hFirst
    · exact hMore.steps change hSecond
  · intro robot
    rw [changesOf_append]
    exact (hMore.path robot).append (h.path robot)

theorem phase_enter (t : Table α) (robot other : EntityId) (phase : RobotPhase) (update : Status α → Status α) :
    (t.enter robot phase update).1.phase other = if other = robot then phase else t.phase other := by
  unfold Table.phase
  rw [status_enter]
  split <;> rfl

/-- A robot enters a phase to which one of the changes leads. -/
theorem enter_leads {t : Table α} (h : t.Coherent) {robot : EntityId} {phase : RobotPhase}
    {update : Status α → Status α} (hStep : PhaseStep (t.phase robot) phase)
    (hStatus : ({ update (t.status robot) with phase := phase } : Status α).Coherent) :
    t.Leads (t.enter robot phase update).1 (t.enter robot phase update).2 := by
  have hChanges : (t.enter robot phase update).2 = [⟨robot, t.phase robot, phase⟩] := if_neg hStep.ne
  rw [hChanges]
  refine ⟨?_, ?_, ?_⟩
  · intro other
    rw [status_enter]
    split
    · exact hStatus
    · exact h other
  · intro change hChange
    rw [List.mem_singleton.mp hChange]
    exact hStep
  · intro other
    rw [phase_enter]
    by_cases hOther : other = robot
    · subst hOther
      have hOwn : changesOf other [⟨other, t.phase other, phase⟩] = [⟨other, t.phase other, phase⟩] := by
        simp [changesOf]
      rw [if_pos rfl, hOwn]
      exact ⟨rfl, rfl⟩
    · have hNone : changesOf other [⟨robot, t.phase robot, phase⟩] = [] := by
        simp [changesOf, Ne.symm hOther]
      rw [if_neg hOther, hNone]
      exact rfl

/-- The end of a travel lands it. -/
theorem finish_leads {t : Table α} (h : t.Coherent) (action : Action) :
    t.Leads (t.finish action).1 (t.finish action).2 := by
  cases action with
  | travel robot start goal resume =>
    unfold finish
    dsimp only
    cases hLanding : (t.status robot).landing with
    | none => exact .refl h
    | some phase =>
      obtain ⟨hStep, hLanded⟩ := (h robot).land hLanding
      exact enter_leads h hStep hLanded
  | move | pick | drop | startCharge | stopCharge => exact .refl h

/-- The phase and the rest of the status of a robot once everything has landed. -/
theorem status_settle (t : Table α) (robot : EntityId) :
    t.settle.1.status robot =
      { t.status robot with
          phase := (t.status robot).landing.getD (t.status robot).phase, landing := none } := by
  unfold settle status
  dsimp only
  rw [OrderedMap.get?_map]
  cases t.robots.get? robot <;> rfl

/-- The change of a robot whose travel lands when everything is settled. -/
theorem changesOf_settle {t : Table α} (h : t.Coherent) (robot : EntityId) :
    changesOf robot t.settle.2 =
      ((t.status robot).landing.map fun phase => ⟨robot, (t.status robot).phase, phase⟩).toList := by
  unfold changesOf settle
  dsimp only
  rw [OrderedMap.filter_filterMap_toList t.robots (k := robot)]
  · unfold Coherent status at h
    have hStatus := h robot
    unfold status
    cases hGet : t.robots.get? robot with
    | none => rfl
    | some status =>
      rw [hGet, Option.getD_some] at hStatus
      rw [Option.bind_some, Option.getD_some]
      cases hLanding : status.landing with
      | none => rfl
      | some phase =>
        rw [Option.map_some]
        dsimp only
        rw [if_neg (hStatus.land hLanding).1.ne]
  · -- an entry reports changes of its own robot
    rintro ⟨id, status⟩ change hRead
    dsimp only at hRead
    split at hRead
    · split at hRead
      · cases hRead
      · cases hRead
        exact decide_eq_true_iff
    · cases hRead

/-- What lands when everything is settled is what would have landed at the end of its travel. -/
theorem settle_leads {t : Table α} (h : t.Coherent) : t.Leads t.settle.1 t.settle.2 := by
  refine ⟨?_, ?_, ?_⟩
  · intro robot
    rw [status_settle]
    cases hLanding : (t.status robot).landing with
    | none =>
      obtain ⟨hLands, -, hCharges⟩ := h robot
      rw [hLanding] at hLands
      exact ⟨hLands, by simp, hCharges⟩
    | some phase => exact ((h robot).land hLanding).2
  · intro change hChange
    -- a change is one of its own robot
    have hOwn : change ∈ changesOf change.robot t.settle.2 :=
      List.mem_filter.mpr ⟨hChange, decide_eq_true rfl⟩
    rw [changesOf_settle h] at hOwn
    obtain ⟨phase, hLanding, hSame⟩ := Option.map_eq_some_iff.mp (Option.mem_toList.mp hOwn)
    rw [← hSame]
    exact ((h change.robot).land hLanding).1
  · intro robot
    rw [changesOf_settle h]
    unfold Table.phase
    rw [status_settle]
    cases (t.status robot).landing with
    | none => exact rfl
    | some phase => exact ⟨rfl, rfl⟩

/-- Who is on the way after an action is committed was so before, or sets off with the action. -/
theorem moving_of_commit {t : Table α} {after : World α} {clock : α} {action : Action} {id : EntityId}
    (h : (t.commit after clock action).1.phase id = .moving) :
    t.phase id = .moving ∨ ∃ start goal resume, action = .travel id start goal resume := by
  cases action with
  | travel robot start goal resume =>
    rw [commit, phase_enter] at h
    split at h
    · rename_i hSame
      exact Or.inr ⟨start, goal, resume, by rw [hSame]⟩
    · exact Or.inl h
  | startCharge robot | stopCharge robot =>
    rw [commit, phase_enter] at h
    split at h
    · cases h
    · exact Or.inl h
  | move | pick | drop => exact Or.inl h

/-- Who is on the way after a travel has ended was so before, and is another robot. -/
theorem moving_of_finish {t : Table α} (h : t.Coherent) {robot start goal : EntityId} {resume : Bool} {id : EntityId}
    (hMoving : (t.finish (.travel robot start goal resume)).1.phase id = .moving) :
    t.phase id = .moving ∧ id ≠ robot := by
  dsimp only [finish] at hMoving
  cases hLanding : (t.status robot).landing with
  | none =>
    rw [hLanding] at hMoving
    refine ⟨hMoving, ?_⟩
    -- a robot on the way has a landing
    rintro rfl
    have hLands := (h id).lands.mpr hMoving
    rw [hLanding] at hLands
    cases hLands
  | some phase =>
    rw [hLanding] at hMoving
    dsimp only at hMoving
    rw [phase_enter] at hMoving
    split at hMoving
    · rcases (h robot).landing phase hLanding with rfl | rfl <;> cases hMoving
    · rename_i hOther
      exact ⟨hMoving, hOther⟩

variable [Scalar α]

/-- What the acceptance of an action says about the phase of its robot. -/
theorem phase_of_effects {t : Table α} {w : World α} {clock : α} {action : Action} {effects : List (Effect α)}
    (h : t.effects w clock action = .ok effects) :
    (∀ robot start goal resume, action = .travel robot start goal resume →
      t.phase robot = .idle ∨ t.phase robot = .arrived) ∧
    (∀ robot, action = .startCharge robot → t.phase robot ≠ .charging ∧ t.phase robot ≠ .moving) ∧
    (∀ robot, action = .stopCharge robot → t.phase robot = .charging) := by
  refine ⟨?_, ?_, ?_⟩
  · rintro robot start goal resume rfl
    simp only [Table.effects, travel] at h
    split at h
    · rename_i hCan
      cases hPhase : t.phase robot <;> rw [hPhase] at hCan
      · exact Or.inl rfl
      · cases hCan
      · exact Or.inr rfl
      · cases hCan
      · cases hCan
    · cases h
  · rintro robot rfl
    simp only [Table.effects, startCharge] at h
    split at h
    · cases h
    · cases h
    · rename_i hCharging hMoving
      exact ⟨hCharging, hMoving⟩
  · rintro robot rfl
    simp only [Table.effects, stopCharge] at h
    split at h
    · assumption
    · cases h

/-- An accepted action takes its robot to the next phase. -/
theorem commit_leads {t : Table α} (h : t.Coherent) {w : World α} {clock : α} {action : Action}
    {effects : List (Effect α)} (hEffects : t.effects w clock action = .ok effects) (after : World α) :
    t.Leads (t.commit after clock action).1 (t.commit after clock action).2 := by
  obtain ⟨hTravel, hStart, hStop⟩ := phase_of_effects hEffects
  cases action with
  | travel robot start goal resume =>
    have hPhase := hTravel robot start goal resume rfl
    have hStarted : (t.status robot).chargeStarted = none := by
      refine (h robot).chargeStarted_eq_none ?_
      rcases hPhase with hIdle | hArrived
      · exact fun hCharging => nomatch hIdle.symm.trans hCharging
      · exact fun hCharging => nomatch hArrived.symm.trans hCharging
    refine enter_leads h ?_ ?_
    · rcases hPhase with hIdle | hArrived
      · exact hIdle.symm ▸ PhaseStep.setOff
      · exact hArrived.symm ▸ PhaseStep.goOn
    · refine ⟨by simp, ?_, by simp [hStarted]⟩
      rintro phase hPhase
      dsimp only at hPhase
      split at hPhase <;> cases hPhase
      · exact Or.inl rfl
      · exact Or.inr rfl
  | startCharge robot =>
    obtain ⟨hCharging, hMoving⟩ := hStart robot rfl
    have hLanding : (t.status robot).landing = none := (h robot).landing_eq_none hMoving
    refine enter_leads h (.charge ?_) ⟨by simp [hLanding], by simp [hLanding], by simp⟩
    cases hPhase : t.phase robot
    · exact Or.inl rfl
    · exact absurd hPhase hMoving
    · exact Or.inr (Or.inl rfl)
    · exact Or.inr (Or.inr rfl)
    · exact absurd hPhase hCharging
  | stopCharge robot =>
    have hCharging := hStop robot rfl
    have hLanding : (t.status robot).landing = none :=
      (h robot).landing_eq_none fun hMoving => nomatch hCharging.symm.trans hMoving
    exact enter_leads h (hCharging.symm ▸ PhaseStep.unplug) ⟨by simp [hLanding], by simp [hLanding], by simp⟩
  | move | pick | drop => exact .refl h

end Table

end Robot

-- ---------------------------------------------------------------------------
-- Calls
-- ---------------------------------------------------------------------------

/-- The calls that change a table. A dispatch brings the world and the time at which an action is tried. -/
inductive TableCall (α : Type) where
  | dispatch (action : DomainAction) (timed : TimedAction α) (world : World α) (clock : α)
  | finish (action : DomainAction)
  | settle

namespace ActionTable

variable [Scalar α]

/-- The table after a call, and the changes of phase that it reports. An action that is rejected changes nothing. -/
def call (t : ActionTable α) : TableCall α → ActionTable α × List PhaseChange
  | .dispatch action timed world clock =>
    match t.dispatch action timed world clock with
    | .ok (table, _, applied) => (table, applied.phaseChanges)
    | .error _ => (t, [])
  | .finish action => t.finish action
  | .settle => t.settle

/-- The table after a sequence of calls, and all changes of phase. -/
def calls (t : ActionTable α) : List (TableCall α) → ActionTable α × List PhaseChange
  | [] => (t, [])
  | first :: rest =>
    let (next, changes) := t.call first
    let (last, more) := next.calls rest
    (last, changes ++ more)

theorem calls_cons (t : ActionTable α) (first : TableCall α) (rest : List (TableCall α)) :
    t.calls (first :: rest) =
      (((t.call first).1.calls rest).1, (t.call first).2 ++ ((t.call first).1.calls rest).2) :=
  rfl

/-- In the domain of robots an accepted action leads from a coherent table to the next one. -/
theorem dispatch_robot {t : Robot.Table α} (h : t.Coherent) {action : DomainAction} {a : TimedAction α}
    {w world : World α} {clock : α} {table : ActionTable α} {applied : Applied α}
    (hDispatch : (robot t).dispatch action a w clock = .ok (table, world, applied)) :
    ∃ next, table = robot next ∧ t.Leads next applied.phaseChanges := by
  cases action with
  | wait =>
    cases hDispatch
    exact ⟨t, rfl, .refl h⟩
  | elevator action | logistics action => cases hDispatch
  | robot action =>
    simp only [dispatch] at hDispatch
    split at hDispatch
    · rename_i hAttempt
      cases hDispatch
      obtain ⟨effects, hEffects, -⟩ := World.effects_of_attempt hAttempt
      exact ⟨_, rfl, Robot.Table.commit_leads h (refusing_eq_ok_iff.mp hEffects) _⟩
    · cases hDispatch

theorem call_robot {t : Robot.Table α} (h : t.Coherent) (call : TableCall α) :
    ∃ next, ((robot t).call call).1 = robot next ∧ t.Leads next ((robot t).call call).2 := by
  cases call with
  | dispatch action a w clock =>
    unfold ActionTable.call
    dsimp only
    split
    · rename_i hDispatch
      exact dispatch_robot h hDispatch
    · exact ⟨t, rfl, .refl h⟩
  | finish action =>
    cases action with
    | robot action => exact ⟨_, rfl, Robot.Table.finish_leads h action⟩
    | elevator | logistics | wait => exact ⟨t, rfl, .refl h⟩
  | settle => exact ⟨_, rfl, Robot.Table.settle_leads h⟩

/-- What every call keeps, a sequence of calls keeps. -/
theorem calls_robot (list : List (TableCall α)) : ∀ {t : Robot.Table α}, t.Coherent →
    ∃ last, ((robot t).calls list).1 = robot last ∧ t.Leads last ((robot t).calls list).2 := by
  induction list with
  | nil => exact fun {t} h => ⟨t, rfl, .refl h⟩
  | cons first rest ih =>
    intro t h
    obtain ⟨middle, hMiddle, hLeads⟩ := call_robot h first
    obtain ⟨last, hLast, hMore⟩ := ih hLeads.coherent
    rw [calls_cons, hMiddle]
    exact ⟨last, hLast, hLeads.trans hMore⟩

-- ---------------------------------------------------------------------------
-- Who is on the way
-- ---------------------------------------------------------------------------

omit [Scalar α] in
/-- A robot that is on the way is the one whose travel is the current action. -/
def Attended (t : ActionTable α) (current : Option DomainAction) : Prop :=
  ∀ table, t = robot table → table.Coherent ∧ ∀ id, table.phase id = .moving →
    ∃ start goal resume, current = some (.robot (.travel id start goal resume))

omit [Scalar α] in
/-- Where no action is current, no robot is on the way. -/
theorem Attended.phase_ne_moving {t : ActionTable α} (h : t.Attended none) (id : EntityId) :
    t.phase? id ≠ some .moving := by
  intro hMoving
  cases t with
  | robot table =>
    obtain ⟨-, hWho⟩ := h table rfl
    obtain ⟨start, goal, resume, hNone⟩ := hWho id (Option.some.inj hMoving)
    cases hNone
  | elevator | logistics => cases hMoving

omit [Scalar α] in
theorem attended_prepare (t : Robot.Table α) (w : World α) : (robot (t.prepare w).1).Attended none := by
  rintro table ⟨⟩
  refine ⟨t.coherent_prepare w, ?_⟩
  intro id hMoving
  rw [Robot.Table.phase_prepare] at hMoving
  cases hMoving

omit [Scalar α] in
/-- The table of a domain without robots is attended. -/
theorem attended_of_domain {t : ActionTable α} (h : t.domain ≠ .robot) (current : Option DomainAction) :
    t.Attended current := by
  rintro table rfl
  exact absurd rfl h

/-- The action that is accepted is the current one. -/
theorem attended_dispatch {t table : ActionTable α} (h : t.Attended none) {action : DomainAction} {a : TimedAction α}
    {w world : World α} {clock : α} {applied : Applied α}
    (hDispatch : t.dispatch action a w clock = .ok (table, world, applied)) : table.Attended (some action) := by
  cases t with
  | elevator | logistics =>
    refine attended_of_domain ?_ _
    rw [domain_dispatch hDispatch]
    exact nofun
  | robot robots =>
    obtain ⟨hCoherent, hNone⟩ := h robots rfl
    obtain ⟨next, rfl, hLeads⟩ := dispatch_robot hCoherent hDispatch
    rintro _ ⟨⟩
    refine ⟨hLeads.coherent, ?_⟩
    intro id hMoving
    -- before the action no robot was on the way
    have hStill : robots.phase id ≠ .moving := by
      intro hBefore
      obtain ⟨start, goal, resume, hCurrent⟩ := hNone id hBefore
      cases hCurrent
    cases action with
    | wait =>
      cases hDispatch
      exact absurd hMoving hStill
    | elevator action | logistics action => cases hDispatch
    | robot action =>
      simp only [dispatch] at hDispatch
      split at hDispatch
      · cases hDispatch
        obtain ⟨start, goal, resume, rfl⟩ := (Robot.Table.moving_of_commit hMoving).resolve_left hStill
        exact ⟨start, goal, resume, rfl⟩
      · cases hDispatch

omit [Scalar α] in
/-- Once the current action is finished, there is none. -/
theorem attended_finish {t : ActionTable α} {action : DomainAction} (h : t.Attended (some action)) :
    (t.finish action).1.Attended none := by
  cases t with
  | elevator | logistics =>
    refine attended_of_domain ?_ _
    rw [domain_finish]
    exact nofun
  | robot robots =>
    obtain ⟨hCoherent, hWho⟩ := h robots rfl
    cases action with
    | elevator action | logistics action | wait =>
      rintro _ ⟨⟩
      refine ⟨hCoherent, ?_⟩
      intro id hMoving
      obtain ⟨start, goal, resume, hOther⟩ := hWho id hMoving
      cases hOther
    | robot action =>
      rintro _ ⟨⟩
      refine ⟨(Robot.Table.finish_leads hCoherent action).coherent, ?_⟩
      intro id hMoving
      have hAfter : (robots.finish action).1.phase id = .moving := hMoving
      cases action with
      | travel mover start goal resume =>
        obtain ⟨hBefore, hOther⟩ := Robot.Table.moving_of_finish hCoherent hAfter
        obtain ⟨start', goal', resume', hSame⟩ := hWho id hBefore
        cases hSame
        exact absurd rfl hOther
      | move | pick | drop | startCharge | stopCharge =>
        obtain ⟨start, goal, resume, hOther⟩ := hWho id hMoving
        cases hOther

omit [Scalar α] in
/-- Once everything is settled, no robot is on the way. -/
theorem attended_settle {t : ActionTable α} {current : Option DomainAction} (h : t.Attended current) :
    t.settle.1.Attended none := by
  cases t with
  | elevator | logistics =>
    refine attended_of_domain ?_ _
    exact nofun
  | robot robots =>
    have hLeads := Robot.Table.settle_leads (h robots rfl).1
    rintro _ ⟨⟩
    refine ⟨hLeads.coherent, ?_⟩
    intro id hMoving
    -- who is on the way has a landing, and none is left
    have hLands := (hLeads.coherent id).lands.mpr hMoving
    rw [Robot.Table.status_settle] at hLands
    cases hLands

end ActionTable

end PlanReplay

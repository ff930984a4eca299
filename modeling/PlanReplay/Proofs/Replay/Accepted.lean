import PlanReplay.Proofs.Replay.Rehearsal

/-!
# Accepted actions alone

An action that is rejected leaves no trace in the world or in the table, and so a plan can be cut down to the
actions that a replay accepted: a replay of these alone rejects nothing, shows the same and ends the same.

* `acceptedActions` — the actions that a replay accepted, read off its events.
* `Rehearsal.alone` — a rehearsal and the one of its accepted actions, by induction on the plan.
* `Timeline.accepted_alone_agree` — the same for replays, however their time is cut into steps.
-/

namespace PlanReplay

variable {α : Type}

-- ---------------------------------------------------------------------------
-- Reading events
-- ---------------------------------------------------------------------------

/-- What an event tells a viewer: a transition begins, or a robot changes its phase. -/
def ReplayEvent.report? : ReplayEvent α → Option (Transition α ⊕ PhaseChange)
  | applied _ transition => some (.inl transition)
  | phaseChanged change => some (.inr change)
  | dispatched _ _ _ | rejected _ _ _ | finished _ _ | completed _ _ | aborted _ => none

/-- What a viewer is told, in the order of the events. -/
def reports (events : List (ReplayEvent α)) : List (Transition α ⊕ PhaseChange) :=
  events.filterMap ReplayEvent.report?

/-- The actions of a plan that a replay accepted, in the order in which it accepted them. -/
def acceptedActions (actions : List (TimedAction α)) (events : List (ReplayEvent α)) : List (TimedAction α) :=
  (applications events).filterMap fun index => actions[index]?

/-- What is read off events without their clocks does not see that the clocks are missing. -/
theorem filterMap_untimed [Zero α] {β : Type} {read : ReplayEvent α → Option β}
    (hRead : ∀ event, read event.untimed = read event) (events : List (ReplayEvent α)) :
    (events.map ReplayEvent.untimed).filterMap read = events.filterMap read := by
  rw [List.filterMap_map]
  exact List.filterMap_congr fun event _ => hRead event

theorem filterMap_phaseChanges {β : Type} (read : ReplayEvent α → Option β) (changes : List PhaseChange) :
    (changes.map ReplayEvent.phaseChanged).filterMap read =
      changes.filterMap fun change => read (.phaseChanged change) := by
  rw [List.filterMap_map]
  rfl

/-- A change of phase is not an action. -/
theorem filterMap_phaseChanges_eq_nil {β : Type} {read : ReplayEvent α → Option β}
    (h : ∀ change, read (.phaseChanged change) = none) (changes : List PhaseChange) :
    (changes.map ReplayEvent.phaseChanged).filterMap read = [] := by
  rw [filterMap_phaseChanges, List.filterMap_eq_nil_iff]
  exact fun change _ => h change

namespace Outcome

variable [Zero α] (index : Nat) (a : TimedAction α) (applied : Applied α) (landed : List PhaseChange)

/-- An action that is not accepted has no transition. -/
theorem applications_failure (failure : Failure (Rejection α)) : applications (events index a (.ofFailure failure)) = [] := by
  cases failure <;> rfl

theorem reports_failure (failure : Failure (Rejection α)) : reports (events index a (.ofFailure failure)) = [] := by
  cases failure <;> rfl

theorem applications_accepted : applications (events index a (.accepted applied landed)) = [index] := by
  simp only [events, applications, List.cons_append, List.filterMap_cons, List.filterMap_append,
    ReplayEvent.appliedIndex?]
  rw [filterMap_phaseChanges_eq_nil fun _ => rfl, filterMap_phaseChanges_eq_nil fun _ => rfl]
  rfl

theorem rejections_accepted : rejections (events index a (.accepted applied landed)) = [] := by
  simp only [events, rejections, List.cons_append, List.filterMap_cons, List.filterMap_append,
    ReplayEvent.rejectedIndex?]
  rw [filterMap_phaseChanges_eq_nil fun _ => rfl, filterMap_phaseChanges_eq_nil fun _ => rfl]
  rfl

/-- What an accepted action tells does not depend on its place in the plan. -/
theorem reports_accepted : reports (events index a (.accepted applied landed)) =
    .inl applied.transition :: (applied.phaseChanges ++ landed).map .inr := by
  simp only [events, reports, List.cons_append, List.filterMap_cons, List.filterMap_append,
    ReplayEvent.report?, filterMap_phaseChanges, List.map_append]
  rw [← List.filterMap_eq_map]
  rfl

end Outcome

-- ---------------------------------------------------------------------------
-- Rehearsals
-- ---------------------------------------------------------------------------

namespace Rehearsal

variable [Scalar α]

/-- A rehearsal of `actions`, and one of the actions that it accepted. -/
structure Alone (actions : List (TimedAction α)) (r alone : Rehearsal α) : Prop where
  /-- Every accepted action is one of the plan. -/
  ofPlan : ∀ index ∈ applications r.events, index < actions.length
  length : r.outcomes.length = actions.length
  sameTable : alone.table = r.table
  sameWorld : alone.world = r.world
  sameReports : reports alone.events = reports r.events
  noneRejected : rejections alone.events = []

omit [Scalar α] in
/-- Actions that come later in the plan do not change which ones before were accepted. -/
theorem acceptedActions_append {actions : List (TimedAction α)} {events : List (ReplayEvent α)}
    (h : ∀ index ∈ applications events, index < actions.length) (later : List (TimedAction α)) :
    acceptedActions (actions ++ later) events = acceptedActions actions events := by
  refine List.filterMap_congr ?_
  intro index hIndex
  exact List.getElem?_append_left (h index hIndex)

section Take

variable {past : List (TimedAction α)} {r cut : Rehearsal α} {a : TimedAction α} (h : Alone past r cut)

include h

/-- An action that fails is not among the accepted ones, and changes neither table nor world. -/
theorem Alone.take_failed {failure : Failure (Rejection α)}
    (hAttempt : r.table.attempt (r.table.decode a) a r.world 0 = .error failure) :
    acceptedActions (past ++ [a]) (r.take a).events = acceptedActions past r.events ∧
      Alone (past ++ [a]) (r.take a) cut := by
  rw [take_of_failed hAttempt]
  dsimp only
  have hSame : applications (r.events ++ Outcome.events r.outcomes.length a (.ofFailure failure)) =
      applications r.events := by
    rw [applications, List.filterMap_append]
    exact (congrArg _ (Outcome.applications_failure _ a failure)).trans (List.append_nil _)
  have hShown : reports (r.events ++ Outcome.events r.outcomes.length a (.ofFailure failure)) = reports r.events := by
    rw [reports, List.filterMap_append]
    exact (congrArg _ (Outcome.reports_failure _ a failure)).trans (List.append_nil _)
  refine ⟨?_, ?_, ?_, h.sameTable, h.sameWorld, ?_, h.noneRejected⟩
  · rw [acceptedActions, hSame]
    exact acceptedActions_append h.ofPlan [a]
  · intro index hIndex
    rw [hSame] at hIndex
    rw [List.length_append]
    exact Nat.lt_add_right _ (h.ofPlan index hIndex)
  · rw [List.length_append, List.length_append, h.length]
    rfl
  · rw [h.sameReports, hShown]

/-- An accepted action is accepted alone as well, and does the same. -/
theorem Alone.take_accepted {action : DomainAction} {next : ActionTable α} {changed : World α} {applied : Applied α}
    (hAttempt : r.table.attempt (r.table.decode a) a r.world 0 = .ok (action, next, changed, applied)) :
    acceptedActions (past ++ [a]) (r.take a).events = acceptedActions past r.events ++ [a] ∧
      Alone (past ++ [a]) (r.take a) (cut.take a) := by
  have hAlone : cut.table.attempt (cut.table.decode a) a cut.world 0 = .ok (action, next, changed, applied) := by
    rw [h.sameTable, h.sameWorld]
    exact hAttempt
  rw [take_of_accepted hAttempt, take_of_accepted hAlone]
  dsimp only
  have hNew : applications
      (r.events ++ Outcome.events r.outcomes.length a (.accepted applied (next.finish action).2)) =
        applications r.events ++ [past.length] := by
    rw [applications, List.filterMap_append, ← h.length]
    exact congrArg _ (Outcome.applications_accepted _ a applied _)
  refine ⟨?_, ?_, ?_, rfl, rfl, ?_, ?_⟩
  · rw [acceptedActions, hNew, List.filterMap_append]
    simp only [List.filterMap_cons, List.filterMap_nil, List.getElem?_concat_length]
    exact congrArg (· ++ [a]) (acceptedActions_append h.ofPlan [a])
  · intro index hIndex
    rw [hNew] at hIndex
    rw [List.length_append]
    rcases List.mem_append.mp hIndex with hOld | hLast
    · exact Nat.lt_add_right _ (h.ofPlan index hOld)
    · rw [List.mem_singleton] at hLast
      rw [hLast]
      exact Nat.lt_succ_self _
  · rw [List.length_append, List.length_append, h.length]
    rfl
  · have hReports := h.sameReports
    unfold reports at hReports ⊢
    rw [List.filterMap_append, List.filterMap_append, hReports]
    congr 1
    exact (Outcome.reports_accepted _ a applied _).trans (Outcome.reports_accepted _ a applied _).symm
  · have hRejected := h.noneRejected
    unfold rejections at hRejected ⊢
    rw [List.filterMap_append, hRejected]
    exact Outcome.rejections_accepted _ a applied _

end Take

/-- Accepted actions do the same without the rejected ones between them: by induction on the plan. -/
theorem alone (table : ActionTable α) (world : World α) (actions : List (TimedAction α)) :
    let r := ofActions table world actions
    Alone actions r (ofActions table world (acceptedActions actions r.events)) := by
  refine ofActions_induction table world
    (P := fun past r => Alone past r (ofActions table world (acceptedActions past r.events))) ?_ ?_ actions
  · exact ⟨nofun, rfl, rfl, rfl, rfl, rfl⟩
  · intro past r a h
    cases hAttempt : r.table.attempt (r.table.decode a) a r.world 0 with
    | error failure =>
      obtain ⟨hAccepted, hTake⟩ := h.take_failed hAttempt
      rw [hAccepted]
      exact hTake
    | ok result =>
      obtain ⟨hAccepted, hTake⟩ := h.take_accepted hAttempt
      rw [hAccepted, ofActions_concat]
      exact hTake

end Rehearsal

-- ---------------------------------------------------------------------------
-- Replays
-- ---------------------------------------------------------------------------

namespace Timeline

variable [Scalar α]

/-- An action that is refused changes neither table nor world. -/
theorem dispatch_keeps_of_rejected {t tried : Timeline α} {next : PendingAction α} {later : List (PendingAction α)}
    {events : List (ReplayEvent α)} (hTried : t.dispatch next later = .ok (tried, events)) {index : Nat}
    {a : TimedAction α} {reason : Rejection α} (h : .rejected index a reason ∈ events) :
    tried.table = t.table ∧ tried.world = t.world := by
  rw [dispatch_eq_attempt] at hTried
  split at hTried
  · cases hTried
  · cases hTried
    exact ⟨rfl, rfl⟩
  · -- an accepted action announces itself, its transition and phases, and is not refused
    cases hTried
    simp at h

/-- An action without a meaning is refused. -/
theorem rejected_of_undecoded (t : Timeline α) {next : PendingAction α} {fault : DecodeError}
    (h : next.decoded = .error fault) (later : List (PendingAction α)) :
    ∃ tried events, t.dispatch next later = .ok (tried, events) ∧
      .rejected t.cursor next.timed (.undecoded fault) ∈ events := by
  have hAttempt : t.table.attempt next.decoded next.timed t.world t.clock = .error (.refused (.undecoded fault)) := by
    rw [h]
    rfl
  rw [dispatch_eq_attempt, hAttempt]
  exact ⟨_, _, rfl, List.mem_cons_of_mem _ (List.mem_singleton_self _)⟩

section

variable {table : ActionTable α} {world : World α} {actions : List (TimedAction α)} {t : Timeline α}
  {past : List (ReplayEvent α)} (h : t.Completes table world actions past)

include h

/-- What is read off a complete replay without the clock is read off the rehearsal of its plan, unless it is read
off the end. -/
theorem Completes.filterMap {β : Type} {read : ReplayEvent α → Option β}
    (hRead : ∀ event, read event.untimed = read event) (hEnd : ∀ clock stats, read (.completed clock stats) = none) :
    past.filterMap read = (Rehearsal.ofActions table world actions).events.filterMap read := by
  rw [← filterMap_untimed hRead, h.sameEvents, List.filterMap_append, List.filterMap_cons_none (hEnd _ _)]
  exact List.append_nil _

theorem Completes.acceptedActions :
    acceptedActions actions past = acceptedActions actions (Rehearsal.ofActions table world actions).events := by
  have hSame : applications past = applications (Rehearsal.ofActions table world actions).events :=
    h.filterMap (fun event => by cases event <;> rfl) (fun _ _ => rfl)
  unfold PlanReplay.acceptedActions
  rw [hSame]

theorem Completes.rejections :
    rejections past = rejections (Rehearsal.ofActions table world actions).events :=
  h.filterMap (fun event => by cases event <;> rfl) (fun _ _ => rfl)

theorem Completes.reports : reports past = reports (Rehearsal.ofActions table world actions).events :=
  h.filterMap (fun event => by cases event <;> rfl) (fun _ _ => rfl)

end

/--
**Rejections are invisible.** Take a plan that never ends charging, a table that is prepared and its world, and a
replay that is complete, and cut the plan down to the actions that the replay accepted. A replay of these alone,
from the same table and world, rejects nothing once it is complete, has shown the same transitions and changes of
phase in the same order, and leaves the same world and phases. For the step that this rests on, an action that is
refused, as every one without a meaning is, changes neither table nor world.
-/
theorem accepted_alone_agree {unprepared table : ActionTable α} {initial world : World α}
    (hPrepared : unprepared.prepare initial = .ok (table, world)) (plan : Plan α)
    (hNames : ∀ a ∈ plan.actions, a.name ≠ "stopcharge") (speed speed' : α) (calls calls' : List (HostCall α))
    (hFirst : ((ofPlan speed table world plan).calls calls).1.status = .completed) :
    let first := (ofPlan speed table world plan).calls calls
    let alone : Plan α := { plan with actions := acceptedActions plan.actions first.2 }
    let second := (ofPlan speed' table world alone).calls calls'
    (second.1.status = .completed →
      rejections second.2 = [] ∧ reports second.2 = reports first.2 ∧ second.1.world = first.1.world ∧
        ∀ id, second.1.table.phase? id = first.1.table.phase? id) ∧
    ∀ (t : Timeline α) (next : PendingAction α) (later : List (PendingAction α)),
      (∀ tried events, t.dispatch next later = .ok (tried, events) →
        ∀ index a reason, .rejected index a reason ∈ events → tried.table = t.table ∧ tried.world = t.world) ∧
      ∀ fault, next.decoded = .error fault → ∃ tried events, t.dispatch next later = .ok (tried, events) ∧
        .rejected t.cursor next.timed (.undecoded fault) ∈ events := by
  intro first alone second
  have hSettled := ActionTable.settled_prepare hPrepared
  have hWhole : first.1.Completes table world plan.actions first.2 :=
    (calls_rehearsed speed hSettled world plan hNames calls).completes hFirst
  refine ⟨?_, fun t next later => ⟨fun _ _ hTried _ _ _ => dispatch_keeps_of_rejected hTried,
    fun _ hFault => rejected_of_undecoded t hFault later⟩⟩
  intro hSecond
  have hAccepted : alone.actions =
      acceptedActions plan.actions (Rehearsal.ofActions table world plan.actions).events :=
    hWhole.acceptedActions
  -- accepted actions are actions of the plan
  have hAloneNames : ∀ a ∈ alone.actions, a.name ≠ "stopcharge" := by
    intro a ha
    obtain ⟨index, -, hGet⟩ := List.mem_filterMap.mp ha
    exact hNames a (List.mem_of_getElem? hGet)
  have hCut : second.1.Completes table world alone.actions second.2 :=
    (calls_rehearsed speed' hSettled world alone hAloneNames calls').completes hSecond
  -- both replays have followed their rehearsals, which agree
  have hAlone := Rehearsal.alone table world plan.actions
  rw [hAccepted] at hCut
  refine ⟨?_, ?_, ?_, ?_⟩
  · rw [hCut.rejections]
    exact hAlone.noneRejected
  · rw [hCut.reports, hWhole.reports]
    exact hAlone.sameReports
  · rw [hCut.sameWorld, hWhole.sameWorld]
    exact hAlone.sameWorld
  · intro id
    rw [← ActionTable.phase?_unclocked, hCut.sameTable, hAlone.sameTable, ← hWhole.sameTable,
      ActionTable.phase?_unclocked]

/-- A robot charges between two actions that are refused, one without a meaning and one that the world does not
allow, and then waits: what is left of the plan is the charging and the wait. -/
theorem accepted_alone_agree_of_refusals :
    let initial : World Float :=
      (((World.empty.declare ⟨"r"⟩ .robot).declare ⟨"a"⟩ .room).declare ⟨"b"⟩ .room)
    let unprepared : ActionTable Float := .robot (.ofConfig .default)
    let plan : Plan Float :=
      ⟨.temporal, [⟨0, 0, "fly", [], 1⟩, ⟨0, 1, "startcharge", [⟨"r"⟩], 2⟩,
        ⟨0, 1, "startcharge", [⟨"nobody"⟩], 3⟩, .wait 5 1 4], []⟩
    ∃ table world, unprepared.prepare initial = .ok (table, world) ∧
      let first := (ofPlan 1 table world plan).calls [.start, .step 0.5, .step 9]
      let alone : Plan Float := { plan with actions := acceptedActions plan.actions first.2 }
      let second := (ofPlan 0.5 table world alone).calls [.start, .step 4, .step 20]
      first.1.status = .completed ∧ second.1.status = .completed ∧ rejections first.2 = [0, 2] ∧
        alone.actions = [⟨0, 1, "startcharge", [⟨"r"⟩], 2⟩, .wait 5 1 4] ∧ rejections second.2 = [] ∧
        reports second.2 = reports first.2 ∧ second.1.world = first.1.world := by
  intro initial unprepared plan
  have hRuns : ∃ table world, unprepared.prepare initial = .ok (table, world) ∧
      let first := (ofPlan 1 table world plan).calls [.start, .step 0.5, .step 9]
      let alone : Plan Float := { plan with actions := acceptedActions plan.actions first.2 }
      first.1.status = .completed ∧ rejections first.2 = [0, 2] ∧
        alone.actions = [⟨0, 1, "startcharge", [⟨"r"⟩], 2⟩, .wait 5 1 4] ∧
        ((ofPlan 0.5 table world alone).calls [.start, .step 4, .step 20]).1.status = .completed := by
    refine ⟨_, _, rfl, ?_⟩
    decide +kernel
  obtain ⟨table, world, hPrepared, hFirst, hRefused, hCut, hSecond⟩ := hRuns
  have hAgree := (accepted_alone_agree hPrepared plan (by decide) 1 0.5 _
    [.start, .step 4, .step 20] hFirst).1 hSecond
  exact ⟨table, world, hPrepared, hFirst, hSecond, hRefused, hCut, hAgree.1, hAgree.2.1, hAgree.2.2.1⟩

end Timeline

end PlanReplay

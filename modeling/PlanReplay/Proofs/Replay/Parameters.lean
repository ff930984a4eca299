import PlanReplay.Proofs.Replay.Rehearsal
import PlanReplay.Proofs.Robot.Run
import PlanReplay.Replay.Run

/-!
# Parameters in a replay

A table takes its parameters from the configuration of its run. Nothing that happens to a table changes them, and so they
are the same in every state of a replay, those in the middle of a step included.

* `ActionTable.Configured` — a table has the parameters of a configuration.
* `Timeline.Reaches` — the states that a host can bring about.
* `Timeline.Reaches.configured` — what every turn and every call keeps.
* `Run.ofPlan_cases` — how a run begins.
* `Run.configured_of_reaches` — every state of the run of a configuration.
-/

namespace PlanReplay

variable {α : Type}

-- ---------------------------------------------------------------------------
-- Tables
-- ---------------------------------------------------------------------------

namespace ActionTable

/-- A table has the parameters of a configuration. -/
def Configured (config : RunConfig α) : ActionTable α → Prop
  | elevator t => t.params = config.elevator
  | logistics t => t.params = config.logistics
  | robot t => t.params = config.robot

variable {config : RunConfig α} {t table : ActionTable α}

theorem configured_ofConfig (config : RunConfig α) (kind : DomainKind) (variant : DomainVariant) :
    (ofConfig config kind variant).Configured config := by
  cases kind <;> rfl

theorem Configured.finish (h : t.Configured config) (action : DomainAction) : (t.finish action).1.Configured config := by
  unfold ActionTable.finish
  split
  · rename_i robots action
    have hSame : (robots.finish action).1.params = robots.params := by rw [robots.finish_eq action]
    exact hSame.trans h
  · exact h

theorem Configured.settle (h : t.Configured config) : t.settle.1.Configured config := by
  cases t with
  | elevator | logistics | robot => exact h

variable [Scalar α]

theorem Configured.prepare {w next : World α} (h : t.Configured config) (hPrepare : t.prepare w = .ok (table, next)) :
    table.Configured config := by
  unfold ActionTable.prepare at hPrepare
  cases t with
  | elevator | logistics | robot =>
    dsimp only at hPrepare
    split at hPrepare
    · cases hPrepare
      exact h
    · cases hPrepare

theorem Configured.dispatch {action : DomainAction} {a : TimedAction α} {w next : World α} {clock : α}
    {applied : Applied α} (h : t.Configured config) (hDispatch : t.dispatch action a w clock = .ok (table, next, applied)) :
    table.Configured config := by
  unfold ActionTable.dispatch at hDispatch
  split at hDispatch
  case h_1 =>
    cases hDispatch
    exact h
  case h_2 | h_3 =>
    split at hDispatch
    · cases hDispatch
      exact h
    · cases hDispatch
  case h_4 robots action =>
    split at hDispatch
    · cases hDispatch
      have hSame : (robots.commit next clock action).1.params = robots.params := by rw [robots.commit_eq]
      exact hSame.trans h
    · cases hDispatch
  case h_5 | h_6 | h_7 => cases hDispatch

end ActionTable

-- ---------------------------------------------------------------------------
-- Timelines
-- ---------------------------------------------------------------------------

namespace Timeline

variable [Scalar α] {config : RunConfig α} {t s : Timeline α}

/-- The states to which a host can bring a timeline: between two calls, and between two turns of a step. -/
inductive Reaches (t : Timeline α) : Timeline α → Prop where
  | here : Reaches t t
  | call {s : Timeline α} (h : Reaches t s) (call : HostCall α) : Reaches t (s.call call).1
  | turn {s : Timeline α} (h : Reaches t s) (budget : α) : Reaches t (s.turn budget).timeline

/-- No turn changes the parameters. -/
theorem TurnStep.configured {budget : α} {turn : Turn α} (hTurn : TurnStep t budget turn)
    (h : t.table.Configured config) : turn.timeline.table.Configured config := by
  cases hTurn with
  | continued | waited | rejected | crashed => exact h
  | finished => exact h.finish _
  | accepted hRunning hPending hDue hAttempt => exact h.dispatch (ActionTable.dispatch_of_attempt hAttempt).2
  | completed => exact h.settle

/-- No call changes the parameters. -/
theorem configured_call (h : t.table.Configured config) (call : HostCall α) :
    (t.call call).1.table.Configured config := by
  cases call with
  | start =>
    change t.start.1.table.Configured config
    unfold start
    split
    · split <;> exact h
    · exact h
  | step time =>
    change (t.step time).1.table.Configured config
    by_cases hRunning : t.status = .running
    · rw [step_of_running hRunning]
      exact @turns_induction _ _ (fun next _ _ => next.table.Configured config)
        (fun last _ => last.table.Configured config) (fun h hTurn => hTurn.configured h)
        (fun h hTurn => hTurn.configured h) t _ [] h
    · rw [step_of_not_running hRunning]
      exact h
  | cancel =>
    change t.cancel.1.table.Configured config
    unfold cancel
    split
    · exact h
    · exact h.settle

/-- **Parameters stay.** In every state that a host can bring about, the table has the parameters that it had. -/
theorem Reaches.configured (h : t.Reaches s) (hFirst : t.table.Configured config) : s.table.Configured config := by
  induction h with
  | here => exact hFirst
  | call _ call ih => exact configured_call ih call
  | @turn earlier _ budget ih => exact (earlier.turn_step budget).configured ih

end Timeline

-- ---------------------------------------------------------------------------
-- Runs
-- ---------------------------------------------------------------------------

namespace Run

variable {config : RunConfig Float} {selection : Selection} {problem : Problem} {plan : Plan Float} {run : Run}

/-- A run begins with the table that is prepared for the world of its problem. -/
theorem ofPlan_cases (hRun : ofPlan config selection problem plan = .ok run) :
    ∃ world table start, World.ofProblem problem = .ok world ∧
      (ActionTable.ofConfig config selection.kind selection.variant).prepare world = .ok (table, start) ∧
      run.timeline = (Timeline.ofPlan config.speed table start plan).start.1 := by
  unfold ofPlan at hRun
  split at hRun
  · cases hRun
  · unfold timelineOf at hRun
    cases hWorld : World.ofProblem problem with
    | error violation =>
      rw [hWorld] at hRun
      cases hRun
    | ok world =>
      rw [hWorld] at hRun
      dsimp only at hRun
      cases hPrepare : (ActionTable.ofConfig config selection.kind selection.variant).prepare world with
      | error violation =>
        rw [hPrepare] at hRun
        cases hRun
      | ok prepared =>
        rw [hPrepare] at hRun
        cases hRun
        exact ⟨world, prepared.1, prepared.2, rfl, hPrepare, rfl⟩

/-- In every state of a run the table has the parameters of the run's configuration. -/
theorem configured_of_reaches (hRun : ofPlan config selection problem plan = .ok run) {s : Timeline Float}
    (hReaches : run.timeline.Reaches s) : s.table.Configured config := by
  obtain ⟨world, table, start, -, hPrepare, hTimeline⟩ := ofPlan_cases hRun
  have hPrepared : table.Configured config := (ActionTable.configured_ofConfig config _ _).prepare hPrepare
  refine hReaches.configured ?_
  rw [hTimeline]
  exact Timeline.configured_call (t := .ofPlan config.speed table start plan) hPrepared .start

end Run

end PlanReplay

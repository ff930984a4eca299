import PlanReplay.Proofs.Domain.Phase
import PlanReplay.Proofs.Replay.Rehearsal

/-!
# Robots on the way in a replay

A replay has one transition at a time. A robot is on the way only while its travel is that transition, in every
state that a host can bring about.

* `Timeline.Attended` — the robot on the way is the one whose travel runs, and nothing runs unless the replay does.
* `Timeline.Attended.call` — what every call of the host keeps.
* `Timeline.phases_stepwise` — the machine of phases, over every sequence of calls to a table, and over every run.
-/

namespace PlanReplay

variable {α : Type}

namespace Timeline

/-- A robot is on the way only in the travel that runs, and a travel runs only while the replay does. -/
structure Attended (t : Timeline α) : Prop where
  table : t.table.Attended (t.running.map (·.action))
  quiet : t.status ≠ .running → t.running = none

namespace Attended

variable {t : Timeline α}

/-- While nothing runs, no robot is on the way. -/
theorem phase_ne_moving (h : t.Attended) (hRunning : t.running = none) (id : EntityId) :
    t.table.phase? id ≠ some .moving := by
  have hTable := h.table
  rw [hRunning] at hTable
  exact hTable.phase_ne_moving id

/-- After its end a replay has no transition. -/
theorem running_of_isComplete (h : t.Attended) (hEnded : t.isComplete = true) : t.running = none := by
  refine h.quiet ?_
  intro hRunning
  rw [isComplete_eq hRunning] at hEnded
  cases hEnded

theorem noted [Scalar α] (h : t.Attended) : t.noted.Attended := ⟨h.table, h.quiet⟩

theorem start (h : t.Attended) : t.start.1.Attended := by
  unfold Timeline.start
  split
  · rename_i hIdle
    have hRunning : t.running = none := h.quiet (by rw [hIdle]; exact nofun)
    split
    · exact ⟨h.table, fun _ => hRunning⟩
    · exact ⟨h.table, fun _ => hRunning⟩
  · exact h

theorem cancel (h : t.Attended) : t.cancel.1.Attended := by
  unfold Timeline.cancel
  split
  · exact h
  · exact ⟨ActionTable.attended_settle h.table, fun _ => rfl⟩

variable [Scalar α]

/-- Every turn keeps a running timeline attended. -/
theorem turn (h : t.Attended) (hStatus : t.status = .running) {budget : α} {turn : Turn α}
    (hTurn : TurnStep t budget turn) : turn.timeline.Attended := by
  have hTable := h.table
  have hLive : t.status ≠ .running → ∀ running : Option (RunningAction α), running = none :=
    fun hNot => absurd hStatus hNot
  cases hTurn with
  | @continued running hRunning hOpen =>
    rw [hRunning] at hTable
    exact ⟨hTable, fun hNot => hLive hNot _⟩
  | @finished running rest clock hRunning hDone hRest hClock =>
    rw [hRunning] at hTable
    exact ⟨ActionTable.attended_finish hTable, fun _ => rfl⟩
  | waited hRunning hPending hWait hShort => exact ⟨hTable, fun _ => hRunning⟩
  | rejected hRunning hPending hDue hAttempt => exact ⟨hTable, fun _ => hRunning⟩
  | crashed hRunning hPending hDue hAttempt => exact ⟨hTable, fun _ => hRunning⟩
  | @accepted next later clock rest action table world applied hRunning hPending hDue hAttempt =>
    rw [hRunning] at hTable
    refine ⟨?_, fun hNot => hLive hNot _⟩
    exact ActionTable.attended_dispatch hTable (ActionTable.dispatch_of_attempt hAttempt).2
  | completed hRunning hPending =>
    refine ⟨?_, fun _ => hRunning⟩
    dsimp only
    rw [hRunning]
    exact ActionTable.attended_settle hTable

/-- What every turn keeps, a step keeps. -/
theorem step (h : t.Attended) (time : α) : (t.step time).1.Attended := by
  by_cases hRunning : t.status = .running
  · rw [step_of_running hRunning]
    refine noted ?_
    -- over the turns of the step: the timeline is attended, and still runs
    refine @turns_induction _ _ (fun t _ _ => t.Attended ∧ t.status = .running) (fun t _ => t.Attended) ?_ ?_ t _ []
      ⟨h, hRunning⟩
    · rintro t next budget rest past events ⟨hAttended, hStatus⟩ hTurn
      exact ⟨hAttended.turn hStatus hTurn, hTurn.status.trans hStatus⟩
    · rintro t next budget past events ⟨hAttended, hStatus⟩ hTurn
      exact hAttended.turn hStatus hTurn
  · rw [step_of_not_running hRunning]
    exact h

theorem call (h : t.Attended) (call : HostCall α) : (t.call call).1.Attended := by
  cases call with
  | start => exact h.start
  | step time => exact h.step time
  | cancel => exact h.cancel

/-- What every call keeps, a run keeps. -/
theorem calls (h : t.Attended) (list : List (HostCall α)) : (t.calls list).1.Attended :=
  @calls_induction _ _ (fun t _ => t.Attended) list (fun call _ _ _ hAttended => hAttended.call call) t [] h

end Attended

variable [Scalar α]

/-- Before its start the timeline of a prepared table is attended. -/
theorem attended_ofPlan (speed : α) (t : Robot.Table α) (w world : World α) (plan : Plan α) :
    (ofPlan speed (.robot (t.prepare w).1) world plan).Attended :=
  ⟨ActionTable.attended_prepare t w, fun _ => rfl⟩

/--
**Phases change step by step.** After any sequence of dispatched, finished and settled actions, accepted or not,
every change of phase that was reported is one of those that there are, the changes of one robot lead from idle to
the phase in which it is now, and a landing is pending exactly for those on the way, a charge begun exactly for
those that charge. However a host drives a replay, no robot is on the way while no transition runs, and none runs
after the end.
-/
theorem phases_stepwise (t : Robot.Table α) (w : World α) :
    (∀ calls : List (TableCall α),
      let run := (ActionTable.robot (t.prepare w).1).calls calls
      (∀ change ∈ run.2, PhaseStep change.before change.after) ∧
      ∃ last, run.1 = .robot last ∧ ∀ robot,
        PhasePath .idle (changesOf robot run.2) (last.phase robot) ∧
        ((last.status robot).landing.isSome = true ↔ last.phase robot = .moving) ∧
        ((last.status robot).chargeStarted.isSome = true ↔ last.phase robot = .charging)) ∧
    ∀ (speed : α) (world : World α) (plan : Plan α) (calls : List (HostCall α)),
      let s := ((ofPlan speed (.robot (t.prepare w).1) world plan).calls calls).1
      (s.running = none → ∀ id, s.table.phase? id ≠ some .moving) ∧ (s.isComplete = true → s.running = none) := by
  refine ⟨?_, ?_⟩
  · intro calls run
    obtain ⟨last, hLast, hLeads⟩ := ActionTable.calls_robot calls (t.coherent_prepare w)
    refine ⟨hLeads.steps, last, hLast, ?_⟩
    intro robot
    have hPath := hLeads.path robot
    rw [Robot.Table.phase_prepare] at hPath
    exact ⟨hPath, (hLeads.coherent robot).lands, (hLeads.coherent robot).charges⟩
  · intro speed world plan calls s
    have hAttended : s.Attended := (attended_ofPlan speed t w world plan).calls calls
    exact ⟨hAttended.phase_ne_moving, hAttended.running_of_isComplete⟩

end Timeline

end PlanReplay

import PlanReplay.Proofs.Domain.Crash
import PlanReplay.Proofs.Replay.Turn

/-!
# Replays over which the program ends

A replay ends with the program in one way only: the action that is next has no result. The action is neither counted nor
told, the world is the one before it, and nothing happens to the timeline any more.

* `Timeline.EndsOver` — the program ends over the next action of a timeline.
* `Timeline.EndsOver.overflow` — which actions these are.
* `Timeline.endsOver_of_calls` — a run that ends with the program is at such an action.
* `Timeline.calls_of_crashed` — what has ended with the program stays as it is.
-/

namespace PlanReplay

variable {α : Type} [Scalar α] {crash : Crash}

/-- An attempt has no result iff the action was read and its dispatch has none. -/
theorem ActionTable.attempt_crash_iff {t : ActionTable α} {decoded : Except DecodeError DomainAction}
    {timed : TimedAction α} {w : World α} {clock : α} :
    t.attempt decoded timed w clock = .error (.crashed crash) ↔
      ∃ action, decoded = .ok action ∧ t.dispatch action timed w clock = .error (.crashed crash) := by
  unfold attempt
  cases decoded with
  | error fault => simp
  | ok action =>
    cases h : t.dispatch action timed w clock with
    | error failure => simp [h]
    | ok result => simp [h]

namespace Timeline

variable {t : Timeline α}

/-- No transition runs, the action that is next has been read, and the program ends over it. -/
structure EndsOver (t : Timeline α) (crash : Crash) (next : PendingAction α) (action : DomainAction) : Prop where
  idle : t.running = none
  isNext : t.pending.head? = some next
  decoded : next.decoded = .ok action
  dispatch : t.table.dispatch action next.timed t.world t.clock = .error (.crashed crash)

/-- The program ends over nothing but a move by one floor, from a floor whose number has no next one. -/
theorem EndsOver.overflow {next : PendingAction α} {action : DomainAction} (h : t.EndsOver crash next action) :
    ∃ (table : Elevator.Table α) (direction : Direction) (elevator : EntityId) (current : Int),
      t.table = .elevator table ∧ action = .elevator (.move direction elevator none) ∧
        table.currentIndex? t.world elevator = some current ∧
        Scalar.fits α (current + direction.step) = false ∧ crash = .floorOverflow elevator current := by
  obtain ⟨table, act, hTable, rfl, -, hEffects⟩ := ActionTable.dispatch_crash_iff.mp h.dispatch
  obtain ⟨direction, elevator, current, rfl, hCurrent, hFits, hCrash⟩ :=
    Elevator.Table.effects_crash_iff.mp hEffects
  exact ⟨table, direction, elevator, current, hTable, rfl, hCurrent, hFits, hCrash⟩

-- ---------------------------------------------------------------------------
-- Turns, steps and calls
-- ---------------------------------------------------------------------------

/-- If the program has ended, it has ended over the action that is next. -/
def Accounted (t : Timeline α) : Prop :=
  ∀ crash, t.status = .crashed crash → ∃ next action, t.EndsOver crash next action

theorem Accounted.of_running (h : t.status = .running) : t.Accounted := by
  intro crash hCrashed
  rw [h] at hCrashed
  cases hCrashed

/-- The only turn that ends the program is one that tries an action without a result. -/
theorem TurnStep.accounted {budget : α} {turn : Turn α} (hTurn : TurnStep t budget turn) (h : t.status = .running) :
    turn.timeline.Accounted := by
  cases hTurn with
  | continued | finished | waited | rejected | accepted => exact .of_running h
  | completed =>
    intro crash hCrashed
    cases hCrashed
  | crashed hRunning hPending hDue hAttempt =>
    intro crash hCrashed
    cases hCrashed
    obtain ⟨action, hDecoded, hDispatch⟩ := ActionTable.attempt_crash_iff.mp hAttempt
    refine ⟨_, action, ⟨hRunning, ?_, hDecoded, hDispatch⟩⟩
    dsimp only
    rw [hPending, List.head?_cons]

theorem accounted_step (h : t.Accounted) (time : α) : (t.step time).1.Accounted := by
  by_cases hRunning : t.status = .running
  · rw [step_of_running hRunning]
    -- the time that a step notes at its end is not looked at
    suffices hTurns : (t.turns (Scalar.nonNegative (time * t.speed))).1.Accounted from fun crash hCrashed =>
      let ⟨next, action, hEnds⟩ := hTurns crash hCrashed
      ⟨next, action, ⟨hEnds.idle, hEnds.isNext, hEnds.decoded, hEnds.dispatch⟩⟩
    refine @turns_induction _ _ (fun next _ _ => next.status = .running) (fun last _ => last.Accounted)
      ?_ ?_ t _ [] hRunning
    · intro next after budget rest past events hNow hTurn
      exact hTurn.status.trans hNow
    · intro next after budget past events hNow hTurn
      exact hTurn.accounted hNow
  · rw [step_of_not_running hRunning]
    exact h

theorem accounted_call (h : t.Accounted) (call : HostCall α) : (t.call call).1.Accounted := by
  cases call with
  | start =>
    change t.start.1.Accounted
    unfold start
    split
    · split
      · intro crash hCrashed
        cases hCrashed
      · exact .of_running rfl
    · exact h
  | step time => exact accounted_step h time
  | cancel =>
    change t.cancel.1.Accounted
    unfold cancel
    split
    · exact h
    · intro crash hCrashed
      cases hCrashed

/-- **Where the program ends in a run.** A plan that is replayed until the program ends is at an action over which it
ends, whatever the calls were. -/
theorem endsOver_of_calls {speed : α} {table : ActionTable α} {world : World α} {plan : Plan α}
    {calls : List (HostCall α)} (h : ((ofPlan speed table world plan).calls calls).1.status = .crashed crash) :
    ∃ next action, ((ofPlan speed table world plan).calls calls).1.EndsOver crash next action := by
  have hStart : (ofPlan speed table world plan).Accounted := fun _ hCrashed => by cases hCrashed
  exact @calls_induction _ _ (fun last _ => last.Accounted) calls
    (fun call _ _ _ hNow => accounted_call hNow call) _ [] hStart crash h

/-- **Nothing happens after a crash.** No call changes a timeline that has ended with the program, or tells anything. -/
theorem calls_of_crashed (h : t.status = .crashed crash) (calls : List (HostCall α)) : t.calls calls = (t, []) := by
  have hCall : ∀ call, t.call call = (t, []) := by
    intro call
    cases call with
    | start =>
      change t.start = (t, [])
      rw [start, h, if_neg nofun]
    | step time => exact step_of_not_running (by rw [h]; nofun) time
    | cancel =>
      change t.cancel = (t, [])
      rw [cancel, isComplete_eq h]
      rfl
  induction calls with
  | nil => rfl
  | cons call later ih => rw [calls_cons, hCall, ih, List.append_nil]

end Timeline

end PlanReplay

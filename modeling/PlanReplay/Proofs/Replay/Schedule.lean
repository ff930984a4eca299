import Mathlib.Algebra.Order.Field.Basic
import PlanReplay.Proofs.Domain.Crash
import PlanReplay.Proofs.Replay.DueTime

/-!
# Schedules

In exact numbers the clock of a replay does not depend on how its time is cut into steps: each action is
dispatched when it is due, and what has happened after some steps depends only on the time that they add up
to.

* `Timeline.Scheduled` — the clock of a timeline and of its events keeps to the due times; every turn keeps it.
* `Timeline.Paced`, `Timeline.Paced.steps` — where a timeline is after steps of a total time.
* `Timeline.dispatch_times` — what has happened after steps of a total time.
-/

namespace PlanReplay

variable {exp : ℚ → ℚ}

/-- The program ends over no try of an action, where no sum overflows. -/
theorem ActionTable.attempt_exact_not_crashed {t : ActionTable (Exact exp)} {decoded : Except DecodeError DomainAction}
    {a : TimedAction (Exact exp)} {w : World (Exact exp)} {clock : Exact exp} {crash : Crash} :
    t.attempt decoded a w clock ≠ .error (.crashed crash) := by
  intro hCrash
  unfold attempt at hCrash
  split at hCrash
  · cases hCrash
  · split at hCrash
    · rename_i hDispatch
      cases hCrash
      exact dispatch_exact_not_crashed hDispatch
    · cases hCrash

-- ---------------------------------------------------------------------------
-- The clock of a timeline
-- ---------------------------------------------------------------------------

namespace Timeline

/-- The time that a timeline waits for: the next action is due or, behind the last one, everything is
finished. -/
def horizon (start duration : ℕ → Exact exp) (length cursor : ℕ) : Exact exp :=
  if cursor < length then dueTime start duration cursor else freeTime start duration cursor

theorem freeTime_le_horizon (start duration : ℕ → Exact exp) (length cursor : ℕ) :
    freeTime start duration cursor ≤ horizon start duration length cursor := by
  unfold horizon
  split
  · exact freeTime_le_dueTime start duration cursor
  · exact le_refl _

/-- The clock of a timeline keeps to the due times. While it waits, everything is finished and no action is
overdue; while a transition runs, what is left of it lasts until everything is finished. -/
structure Scheduled (start duration : ℕ → Exact exp) (length : ℕ) (t : Timeline (Exact exp))
    (past : List (ReplayEvent (Exact exp))) : Prop where
  punctual : Punctual start duration past t.clock
  waiting : t.running = none → freeTime start duration t.cursor ≤ t.clock ∧
    t.clock ≤ horizon start duration length t.cursor
  running : ∀ running, t.running = some running →
    t.clock + running.progress.remaining = freeTime start duration t.cursor

/-- An action whose start has been reached, or is reached within the budget, is dispatched when it is due. -/
theorem Due.spec {start duration : ℕ → Exact exp} {t : Timeline (Exact exp)} {next : PendingAction (Exact exp)}
    {budget clock rest : Exact exp} (hDue : t.Due next budget clock rest) (hBudget : 0 ≤ budget)
    (hStart : start t.cursor = next.timed.start) (hFree : freeTime start duration t.cursor ≤ t.clock)
    (hLimit : t.clock ≤ dueTime start duration t.cursor) :
    clock = dueTime start duration t.cursor ∧ t.clock ≤ clock ∧ clock + rest = t.clock + budget ∧
      0 ≤ rest := by
  rw [dueTime_eq, hStart] at hLimit ⊢
  cases hDue with
  | already hReached =>
    -- the clock is at the later of the start and the end of everything before it
    have hStarted : next.timed.start ≤ t.clock := by
      have := not_lt.mp hReached
      linarith
    have hBoth : max next.timed.start (freeTime start duration t.cursor) ≤ t.clock := max_le hStarted hFree
    exact ⟨le_antisymm hLimit hBoth, le_refl _, rfl, hBudget⟩
  | ahead hWait hEnough =>
    -- the start is after the end of everything before it
    have hEnough := not_lt.mp hEnough
    have hAhead : t.clock ≤ next.timed.start := by linarith
    rw [max_eq_left (hFree.trans hAhead)]
    refine ⟨rfl, hAhead, ?_, ?_⟩ <;> linarith

section Turns

variable {table : ActionTable (Exact exp)} {world : World (Exact exp)}
  {actions : List (TimedAction (Exact exp))} {t : Timeline (Exact exp)}
  {past : List (ReplayEvent (Exact exp))} {next : PendingAction (Exact exp)}
  {later : List (PendingAction (Exact exp))} {budget clock rest : Exact exp}

/-- A rejected action takes no time. -/
theorem Follows.duration_of_rejected (h : t.Follows table world actions past)
    (hNames : ∀ a ∈ actions, a.name ≠ "stopcharge") (hRunning : t.running = none)
    (hPending : t.pending = next :: later) {reason : Rejection (Exact exp)}
    (hAttempt : t.table.attempt next.decoded next.timed t.world clock = .error (.refused reason)) :
    durationOf table world actions t.cursor = 0 := by
  obtain ⟨hGet, -⟩ := h.next hPending
  have hTake := Rehearsal.take_of_failed (h.attempt_error hNames hRunning hPending hAttempt)
  have hOutcome := Rehearsal.outcome_of_take hGet (h.length_outcomes hPending)
    (congrArg Rehearsal.outcomes hTake)
  rw [durationOf, hOutcome]
  rfl

/-- An accepted action takes the time of its transition. -/
theorem Follows.duration_of_accepted (h : t.Follows table world actions past)
    (hNames : ∀ a ∈ actions, a.name ≠ "stopcharge") (hRunning : t.running = none)
    (hPending : t.pending = next :: later) {action : DomainAction} {after : ActionTable (Exact exp)}
    {changed : World (Exact exp)} {applied : Applied (Exact exp)}
    (hAttempt : t.table.attempt next.decoded next.timed t.world clock = .ok (action, after, changed, applied)) :
    durationOf table world actions t.cursor = applied.transition.nominal := by
  obtain ⟨hGet, -⟩ := h.next hPending
  obtain ⟨after', hAttempt', -⟩ := h.attempt_ok hNames hRunning hPending hAttempt
  have hTake := Rehearsal.take_of_accepted hAttempt'
  have hOutcome := Rehearsal.outcome_of_take hGet (h.length_outcomes hPending)
    (congrArg Rehearsal.outcomes hTake)
  rw [durationOf, hOutcome]
  rfl

namespace Scheduled

variable (h : t.Scheduled (startOf actions) (durationOf table world actions) actions.length past)
  (hFollows : t.Follows table world actions past)

include h hFollows

/-- While another action is pending, a timeline that waits has not gone past its due time. -/
theorem before_due (hRunning : t.running = none) (hPending : t.pending = next :: later) :
    freeTime (startOf actions) (durationOf table world actions) t.cursor ≤ t.clock ∧
      t.clock ≤ dueTime (startOf actions) (durationOf table world actions) t.cursor := by
  obtain ⟨hGet, -⟩ := hFollows.next hPending
  obtain ⟨hFree, hLimit⟩ := h.waiting hRunning
  rw [horizon, if_pos (List.getElem?_eq_some_iff.mp hGet).1] at hLimit
  exact ⟨hFree, hLimit⟩

/-- The next action is dispatched when it is due. -/
theorem due_spec (hBudget : 0 ≤ budget) (hRunning : t.running = none) (hPending : t.pending = next :: later)
    (hDue : t.Due next budget clock rest) :
    clock = dueTime (startOf actions) (durationOf table world actions) t.cursor ∧ t.clock ≤ clock ∧
      clock + rest = t.clock + budget ∧ 0 ≤ rest := by
  obtain ⟨hGet, -⟩ := hFollows.next hPending
  obtain ⟨hFree, hLimit⟩ := h.before_due hFollows hRunning hPending
  exact hDue.spec hBudget (startOf_of_get hGet) hFree hLimit

/-- The dispatch of the next action is on time. -/
theorem due_onTime (hBudget : 0 ≤ budget) (hRunning : t.running = none) (hPending : t.pending = next :: later)
    (hDue : t.Due next budget clock rest) :
    (ReplayEvent.dispatched t.cursor next.timed clock).OnTime (startOf actions) (durationOf table world actions) ∧
      ∀ value, (ReplayEvent.dispatched t.cursor next.timed clock).clock? = some value → value = clock := by
  obtain ⟨hNow, -⟩ := h.due_spec hFollows hBudget hRunning hPending hDue
  obtain ⟨hGet, -⟩ := hFollows.next hPending
  refine ⟨⟨hNow, ?_⟩, ?_⟩
  · rw [hNow, ← startOf_of_get hGet]
    exact start_le_dueTime _ _ _
  · rintro _ ⟨⟩
    rfl

/-- A turn that leaves time takes the clock on by the time that it spends. -/
theorem rest_spec (hBudget : 0 ≤ budget) {after : Timeline (Exact exp)} {events : List (ReplayEvent (Exact exp))}
    (hTurn : TurnStep t budget ⟨after, events, some rest⟩) :
    after.clock + rest = t.clock + budget ∧ 0 ≤ rest := by
  generalize hResult : (⟨after, events, some rest⟩ : Turn (Exact exp)) = turn at hTurn
  cases hTurn with
  | @finished running rest' clock' hRunning hDone hRest hClock =>
    cases hResult
    have hEnough := (Progress.advance_isComplete hBudget).mp hDone
    rw [(Progress.advance_finished hBudget hEnough).2] at hRest
    dsimp only
    constructor <;> linarith
  | rejected hRunning hPending hDue hAttempt =>
    cases hResult
    exact (h.due_spec hFollows hBudget hRunning hPending hDue).2.2
  | accepted hRunning hPending hDue hAttempt =>
    cases hResult
    exact (h.due_spec hFollows hBudget hRunning hPending hDue).2.2
  | continued | waited | completed | crashed => cases hResult

/-- A turn that ends the step has spent the budget before anything else is due, or ends the replay. -/
theorem stop_spec (hBudget : 0 ≤ budget) {after : Timeline (Exact exp)} {events : List (ReplayEvent (Exact exp))}
    (hTurn : TurnStep t budget ⟨after, events, none⟩) :
    (after.status = t.status ∧ after.clock = t.clock + budget ∧
      after.clock < horizon (startOf actions) (durationOf table world actions) actions.length after.cursor) ∨
    (after.status = .completed ∧ after.running = none ∧ after.pending = [] ∧ after.clock = t.clock) := by
  generalize hResult : (⟨after, events, none⟩ : Turn (Exact exp)) = turn at hTurn
  cases hTurn with
  | @continued running hRunning hOpen =>
    cases hResult
    have hShort := (Progress.advance_isOpen hBudget).mp hOpen
    -- the transition ends behind the clock, and the next action is not due before that
    have hFinish := h.running running hRunning
    refine Or.inl ⟨rfl, rfl, ?_⟩
    refine lt_of_lt_of_le ?_ (freeTime_le_horizon _ _ _ _)
    dsimp only
    linarith
  | @waited next later hRunning hPending hWait hShort =>
    cases hResult
    -- the start is ahead of the clock, and so the due time is
    obtain ⟨hGet, -⟩ := hFollows.next hPending
    refine Or.inl ⟨rfl, rfl, ?_⟩
    rw [horizon, if_pos (List.getElem?_eq_some_iff.mp hGet).1]
    refine lt_of_lt_of_le ?_ (start_le_dueTime _ _ _)
    rw [startOf_of_get hGet]
    dsimp only
    linarith
  | completed hRunning hPending =>
    cases hResult
    exact Or.inr ⟨rfl, hRunning, hPending, rfl⟩
  | crashed _ _ _ hAttempt => exact absurd hAttempt ActionTable.attempt_exact_not_crashed
  | finished | rejected | accepted => cases hResult

/-- Every turn keeps to the due times. -/
theorem turn (hTraced : t.Traced actions past) (hNames : ∀ a ∈ actions, a.name ≠ "stopcharge")
    (hBudget : 0 ≤ budget) {turn : Turn (Exact exp)} (hTurn : TurnStep t budget turn) :
    turn.timeline.Scheduled (startOf actions) (durationOf table world actions) actions.length
      (past ++ turn.events) := by
  cases hTurn with
  | @continued running hRunning hOpen =>
    have hShort := (Progress.advance_isOpen hBudget).mp hOpen
    refine ⟨?_, ?_, ?_⟩
    · rw [List.append_nil]
      exact h.punctual.mono (le_add_of_nonneg_right hBudget)
    · intro hNone
      cases hNone
    · rintro running' ⟨⟩
      have hFinish := h.running running hRunning
      dsimp only
      rw [(Progress.advance_open hBudget hShort).2]
      linarith
  | @finished running rest clock hRunning hDone hRest hClock =>
    have hEnough := (Progress.advance_isComplete hBudget).mp hDone
    rw [(Progress.advance_finished hBudget hEnough).2] at hRest
    -- the clock comes to the end of the transition
    have hFinish := h.running running hRunning
    have hNow : clock = freeTime (startOf actions) (durationOf table world actions) t.cursor := by linarith
    have hLater : t.clock ≤ clock := by
      have := running.progress.remaining_nonneg
      linarith
    refine ⟨?_, ?_, ?_⟩
    · refine h.punctual.append hLater ?_
      rw [List.forall_mem_cons]
      refine ⟨⟨?_, ?_⟩, phaseChanges_onTime _ _ _ _⟩
      · rw [hTraced.running running hRunning] at hNow
        exact hNow
      · rintro _ ⟨⟩
        rfl
    · intro _
      exact ⟨le_of_eq hNow.symm, le_of_eq_of_le hNow (freeTime_le_horizon _ _ _ _)⟩
    · intro running' hSome
      cases hSome
  | @waited next later hRunning hPending hWait hShort =>
    obtain ⟨hFree, hLimit⟩ := h.waiting hRunning
    have hStep := h.stop_spec hFollows hBudget (.waited hRunning hPending hWait hShort)
    refine ⟨?_, ?_, ?_⟩
    · rw [List.append_nil]
      exact h.punctual.mono (le_add_of_nonneg_right hBudget)
    · intro _
      refine ⟨hFree.trans (le_add_of_nonneg_right hBudget), ?_⟩
      rcases hStep with ⟨-, -, hAhead⟩ | ⟨-, -, -, hStill⟩
      · exact le_of_lt hAhead
      · exact le_of_eq_of_le hStill hLimit
    · intro running hSome
      rw [hRunning] at hSome
      cases hSome
  | @rejected next later clock rest reason hRunning hPending hDue hAttempt =>
    obtain ⟨hNow, hLater, -, -⟩ := h.due_spec hFollows hBudget hRunning hPending hDue
    have hOnTime := h.due_onTime hFollows hBudget hRunning hPending hDue
    have hDuration := hFollows.duration_of_rejected hNames hRunning hPending hAttempt
    -- nothing runs, and the next action may follow at once
    have hFree : clock = freeTime (startOf actions) (durationOf table world actions) (t.cursor + 1) := by
      rw [freeTime, hDuration, hNow]
      exact (add_zero _).symm
    refine ⟨?_, ?_, ?_⟩
    · refine h.punctual.append hLater ?_
      rw [List.forall_mem_cons, List.forall_mem_singleton]
      exact ⟨hOnTime, hDuration, nofun⟩
    · intro _
      exact ⟨le_of_eq hFree.symm, le_of_eq_of_le hFree (freeTime_le_horizon _ _ _ _)⟩
    · intro running hSome
      rw [hRunning] at hSome
      cases hSome
  | @accepted next later clock rest action after changed applied hRunning hPending hDue hAttempt =>
    obtain ⟨hNow, hLater, -, -⟩ := h.due_spec hFollows hBudget hRunning hPending hDue
    have hOnTime := h.due_onTime hFollows hBudget hRunning hPending hDue
    have hDuration := hFollows.duration_of_accepted hNames hRunning hPending hAttempt
    -- the whole time of the transition is left
    refine ⟨?_, ?_, ?_⟩
    · refine h.punctual.append hLater ?_
      rw [List.forall_mem_cons, List.forall_mem_cons]
      exact ⟨hOnTime, ⟨hDuration, nofun⟩, phaseChanges_onTime _ _ _ _⟩
    · intro hNone
      cases hNone
    · rintro running ⟨⟩
      dsimp only
      rw [Progress.remaining_begin, freeTime, hDuration, hNow]
      rfl
  | crashed _ _ _ hAttempt => exact absurd hAttempt ActionTable.attempt_exact_not_crashed
  | completed hRunning hPending =>
    refine ⟨?_, ?_, ?_⟩
    · refine h.punctual.append (le_refl _) ?_
      rw [List.forall_mem_append, List.forall_mem_singleton]
      refine ⟨phaseChanges_onTime _ _ _ _, trivial, ?_⟩
      rintro _ ⟨⟩
      rfl
    · exact h.waiting
    · exact h.running

end Scheduled

end Turns

-- ---------------------------------------------------------------------------
-- Steps of a total time
-- ---------------------------------------------------------------------------

/-- The time that steps add up to. A step for less than no time counts as nothing. -/
def totalTime (speed : Exact exp) (times : List (Exact exp)) : Exact exp :=
  (times.map fun time => Scalar.nonNegative (time * speed)).sum

section Steps

variable {table : ActionTable (Exact exp)} {world : World (Exact exp)}
  {actions : List (TimedAction (Exact exp))} {total : Exact exp} {t next : Timeline (Exact exp)}
  {budget rest : Exact exp} {past events : List (ReplayEvent (Exact exp))}

/-- What holds of a timeline and its events after steps that add up to `total`. -/
structure Paced (table : ActionTable (Exact exp)) (world : World (Exact exp))
    (actions : List (TimedAction (Exact exp))) (total : Exact exp) (t : Timeline (Exact exp))
    (past : List (ReplayEvent (Exact exp))) : Prop where
  traced : t.Traced actions past
  scheduled : t.Scheduled (startOf actions) (durationOf table world actions) actions.length past
  live : t.isComplete = false → t.status = .running ∧ t.Follows table world actions past ∧ t.clock = total
  ended : t.isComplete = true → t.status = .completed ∧ t.running = none ∧ t.cursor = actions.length ∧
    t.clock ≤ total

/-- Nothing that is due has been left out. -/
def CaughtUp (table : ActionTable (Exact exp)) (world : World (Exact exp))
    (actions : List (TimedAction (Exact exp))) (t : Timeline (Exact exp)) : Prop :=
  t.isComplete = false →
    t.clock < horizon (startOf actions) (durationOf table world actions) actions.length t.cursor

/-- What a timeline keeps to in the middle of a step, with a part of its time left. -/
structure Midway (table : ActionTable (Exact exp)) (world : World (Exact exp))
    (actions : List (TimedAction (Exact exp))) (total : Exact exp) (t : Timeline (Exact exp)) (rest : Exact exp)
    (past : List (ReplayEvent (Exact exp))) : Prop where
  traced : t.Traced actions past
  scheduled : t.Scheduled (startOf actions) (durationOf table world actions) actions.length past
  running : t.status = .running
  follows : t.Follows table world actions past
  rest_nonneg : 0 ≤ rest
  clock : t.clock + rest = total

namespace Midway

/-- A turn that leaves time is still in the middle of the step. -/
theorem go (h : Midway table world actions total t budget past)
    (hNames : ∀ a ∈ actions, a.name ≠ "stopcharge") (hTurn : TurnStep t budget ⟨next, events, some rest⟩) :
    Midway table world actions total next rest (past ++ events) := by
  have hBefore : t.isComplete = false := isComplete_eq h.running
  have hRunning : next.status = .running := hTurn.status.trans h.running
  have hLive : next.isComplete = false := isComplete_eq hRunning
  obtain ⟨hClock, hRest⟩ := h.scheduled.rest_spec h.follows h.rest_nonneg hTurn
  exact ⟨h.traced.turn hBefore hTurn, h.scheduled.turn h.follows h.traced hNames h.rest_nonneg hTurn, hRunning,
    h.follows.turn hNames hTurn hLive, hRest, hClock.trans h.clock⟩

/-- The turn that ends the step leaves nothing out that is due. -/
theorem stop (h : Midway table world actions total t budget past)
    (hNames : ∀ a ∈ actions, a.name ≠ "stopcharge") (hTurn : TurnStep t budget ⟨next, events, none⟩) :
    next.Paced table world actions total (past ++ events) ∧ next.CaughtUp table world actions := by
  have hTraced := h.traced.turn (isComplete_eq h.running) hTurn
  have hScheduled := h.scheduled.turn h.follows h.traced hNames h.rest_nonneg hTurn
  have hClock := h.clock
  have hRest := h.rest_nonneg
  rcases h.scheduled.stop_spec h.follows h.rest_nonneg hTurn with
    ⟨hStatus, hSpent, hAhead⟩ | ⟨hStatus, hIdle, hPending, hStill⟩
  · have hRunning : next.status = .running := hStatus.trans h.running
    have hLive : next.isComplete = false := isComplete_eq hRunning
    refine ⟨⟨hTraced, hScheduled, ?_, ?_⟩, fun _ => hAhead⟩
    · intro _
      exact ⟨hRunning, h.follows.turn hNames hTurn hLive, hSpent.trans hClock⟩
    · intro hEnded
      cases hLive.symm.trans hEnded
  · have hEnded : next.isComplete = true := isComplete_eq hStatus
    refine ⟨⟨hTraced, hScheduled, ?_, ?_⟩, ?_⟩
    · intro hLive
      cases hEnded.symm.trans hLive
    · intro _
      refine ⟨hStatus, hIdle, hTraced.cursor_eq_length hPending, ?_⟩
      linarith
    · intro hLive
      cases hEnded.symm.trans hLive

end Midway

namespace Paced

theorem noted (h : t.Paced table world actions total past) : t.noted.Paced table world actions total past := by
  refine ⟨h.traced.noted, ⟨h.scheduled.punctual, h.scheduled.waiting, h.scheduled.running⟩, ?_, h.ended⟩
  intro hLive
  obtain ⟨hRunning, hFollows, hClock⟩ := h.live hLive
  exact ⟨hRunning, hFollows.noted, hClock⟩

/-- A step of a timeline takes it on by its time. -/
theorem step (h : t.Paced table world actions total past) (hNames : ∀ a ∈ actions, a.name ≠ "stopcharge")
    (time : Exact exp) :
    (t.step time).1.Paced table world actions (total + Scalar.nonNegative (time * t.speed))
      (past ++ (t.step time).2) ∧ (t.step time).1.CaughtUp table world actions := by
  have hTime : 0 ≤ Scalar.nonNegative (time * t.speed) := le_max_right _ _
  cases hLive : t.isComplete with
  | false =>
    obtain ⟨hRunning, hFollows, hClock⟩ := h.live hLive
    rw [step_of_running hRunning]
    have hTurns := turns_induction
      (P := Midway table world actions (total + Scalar.nonNegative (time * t.speed)))
      (Q := fun t' past' => t'.Paced table world actions (total + Scalar.nonNegative (time * t.speed)) past' ∧
        t'.CaughtUp table world actions)
      (fun hMidway hTurn => hMidway.go hNames hTurn) (fun hMidway hTurn => hMidway.stop hNames hTurn)
      ⟨h.traced, h.scheduled, hRunning, hFollows, hTime, congrArg (· + _) hClock⟩
    exact ⟨hTurns.1.noted, hTurns.2⟩
  | true =>
    -- after the end only the total time grows
    obtain ⟨hDone, hIdle, hCursor, hClock⟩ := h.ended hLive
    have hStopped : t.status ≠ .running := by
      rw [hDone]
      nofun
    rw [step_of_not_running hStopped, List.append_nil]
    refine ⟨⟨h.traced, h.scheduled, ?_, ?_⟩, ?_⟩
    · intro hOpen
      cases hLive.symm.trans hOpen
    · intro _
      exact ⟨hDone, hIdle, hCursor, hClock.trans (le_add_of_nonneg_right hTime)⟩
    · intro hOpen
      cases hLive.symm.trans hOpen

/-- Steps take a timeline on by the time that they add up to. -/
theorem steps {speed : Exact exp} (hNames : ∀ a ∈ actions, a.name ≠ "stopcharge") (times : List (Exact exp))
    (h : t.Paced table world actions total past) (hSpeed : t.speed = speed) :
    (t.calls (times.map .step)).1.Paced table world actions (total + totalTime speed times)
        (past ++ (t.calls (times.map .step)).2) ∧
      (times ≠ [] → (t.calls (times.map .step)).1.CaughtUp table world actions) := by
  induction times generalizing t past total with
  | nil =>
    refine ⟨?_, fun hNone => absurd rfl hNone⟩
    rw [totalTime, List.map_nil, List.map_nil, List.sum_nil, add_zero]
    rw [show t.calls [] = (t, []) from rfl, List.append_nil]
    exact h
  | cons time rest ih =>
    obtain ⟨hStep, hCaughtUp⟩ := h.step hNames time
    rw [hSpeed] at hStep
    -- the rest of the steps begin where this one ends
    obtain ⟨hLast, hRest⟩ := ih hStep ((t.speed_step time).trans hSpeed)
    rw [List.map_cons, calls_cons, ← List.append_assoc]
    constructor
    · rw [totalTime, List.map_cons, List.sum_cons, ← add_assoc]
      exact hLast
    · intro _
      cases rest with
      | nil => exact hCaughtUp
      | cons second others => exact hRest (List.cons_ne_nil _ _)

end Paced

namespace Paced

end Paced

end Steps

end Timeline

end PlanReplay

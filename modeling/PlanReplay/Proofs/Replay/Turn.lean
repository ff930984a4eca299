import PlanReplay.Replay.Timeline

/-!
# Turns, steps and calls

A step of a timeline is a sequence of turns, and a run is a sequence of calls by the host. This module says
once what a turn can do, and gives the two rules by which a property goes from a turn to a step and from a
call to a run.

* `Timeline.TurnStep`, `Timeline.turn_step` — the seven things that a turn can do.
* `Timeline.turns_induction` — what every turn keeps, a step keeps.
* `HostCall`, `Timeline.calls`, `Timeline.calls_induction` — runs, and what every call keeps.
-/

namespace PlanReplay

variable {α : Type}

-- ---------------------------------------------------------------------------
-- Trying an action
-- ---------------------------------------------------------------------------

/-- Tries an action that has been decoded: the action with what it leads to, or why there is nothing of the kind. -/
def ActionTable.attempt [Scalar α] (t : ActionTable α) (decoded : Except DecodeError DomainAction)
    (a : TimedAction α) (w : World α) (clock : α) :
    Except (Failure (Rejection α)) (DomainAction × ActionTable α × World α × Applied α) :=
  match decoded with
  | .error fault => .error (.refused (.undecoded fault))
  | .ok action =>
    match t.dispatch action a w clock with
    | .error failure => .error failure
    | .ok (table, world, applied) => .ok (action, table, world, applied)

namespace Timeline

variable [Scalar α]

/-- Dispatching the next action is trying it, counting what comes of it and telling it. -/
theorem dispatch_eq_attempt (t : Timeline α) (next : PendingAction α) (later : List (PendingAction α)) :
    t.dispatch next later =
      match t.table.attempt next.decoded next.timed t.world t.clock with
      | .error (.crashed crash) => .error crash
      | .error (.refused reason) =>
        .ok ({ t with
            cursor := t.cursor + 1, pending := later, stats := t.stats.countDispatched.countRejected },
          [.dispatched t.cursor next.timed t.clock, .rejected t.cursor next.timed reason])
      | .ok (action, table, world, applied) =>
        .ok ({ t with
            cursor := t.cursor + 1, pending := later, table := table, world := world
            running := some ⟨t.cursor, action, .begin applied.transition.completion⟩
            stats := t.stats.countDispatched.countApplied next.timed.isWait },
          .dispatched t.cursor next.timed t.clock :: .applied t.cursor applied.transition ::
            applied.phaseChanges.map .phaseChanged) := by
  unfold dispatch ActionTable.attempt
  cases next.decoded with
  | error fault => rfl
  | ok action =>
    dsimp only
    cases t.table.dispatch action next.timed t.world t.clock with
    | error failure => cases failure <;> rfl
    | ok result => rfl

-- ---------------------------------------------------------------------------
-- What a turn does
-- ---------------------------------------------------------------------------

/-- With the time `budget` at hand, the next action is dispatched at `clock`, and the time `rest` is left. -/
inductive Due (t : Timeline α) (next : PendingAction α) (budget : α) : α → α → Prop where
  /-- The start of the action has been reached. -/
  | already (hReached : ¬ 0 < next.timed.start - t.clock) : Due t next budget t.clock budget
  /-- The start of the action is ahead, and within the budget. -/
  | ahead (hWait : 0 < next.timed.start - t.clock) (hEnough : ¬ budget < next.timed.start - t.clock) :
      Due t next budget next.timed.start (budget - (next.timed.start - t.clock))

omit [Scalar α] in
theorem isComplete_eq {t : Timeline α} {status : ReplayStatus} (h : t.status = status) :
    t.isComplete = status.isTerminal :=
  congrArg ReplayStatus.isTerminal h

/-- What a turn can do. -/
inductive TurnStep (t : Timeline α) (budget : α) : Turn α → Prop where
  | continued {running : RunningAction α} (hRunning : t.running = some running)
      (hOpen : (running.progress.advance budget).1.isComplete = false) :
      TurnStep t budget
        ⟨{ t with
            clock := t.clock + budget
            running := some { running with progress := (running.progress.advance budget).1 } }, [], none⟩
  | finished {running : RunningAction α} {rest clock : α} (hRunning : t.running = some running)
      (hDone : (running.progress.advance budget).1.isComplete = true)
      (hRest : rest = (running.progress.advance budget).2) (hClock : clock = t.clock + (budget - rest)) :
      TurnStep t budget
        ⟨{ t with clock := clock, table := (t.table.finish running.action).1, running := none },
          .finished running.index clock :: (t.table.finish running.action).2.map .phaseChanged, some rest⟩
  | waited {next : PendingAction α} {later : List (PendingAction α)} (hRunning : t.running = none)
      (hPending : t.pending = next :: later) (hWait : 0 < next.timed.start - t.clock)
      (hShort : budget < next.timed.start - t.clock) :
      TurnStep t budget ⟨{ t with clock := t.clock + budget }, [], none⟩
  | rejected {next : PendingAction α} {later : List (PendingAction α)} {clock rest : α}
      {reason : Rejection α} (hRunning : t.running = none) (hPending : t.pending = next :: later)
      (hDue : t.Due next budget clock rest)
      (hAttempt : t.table.attempt next.decoded next.timed t.world clock = .error (.refused reason)) :
      TurnStep t budget
        ⟨{ t with
            clock := clock, cursor := t.cursor + 1, pending := later
            stats := t.stats.countDispatched.countRejected },
          [.dispatched t.cursor next.timed clock, .rejected t.cursor next.timed reason], some rest⟩
  | crashed {next : PendingAction α} {later : List (PendingAction α)} {clock rest : α} {crash : Crash}
      (hRunning : t.running = none) (hPending : t.pending = next :: later) (hDue : t.Due next budget clock rest)
      (hAttempt : t.table.attempt next.decoded next.timed t.world clock = .error (.crashed crash)) :
      TurnStep t budget ⟨{ t with clock := clock, status := .crashed crash }, [], none⟩
  | accepted {next : PendingAction α} {later : List (PendingAction α)} {clock rest : α}
      {action : DomainAction} {table : ActionTable α} {world : World α} {applied : Applied α}
      (hRunning : t.running = none) (hPending : t.pending = next :: later)
      (hDue : t.Due next budget clock rest)
      (hAttempt : t.table.attempt next.decoded next.timed t.world clock =
        .ok (action, table, world, applied)) :
      TurnStep t budget
        ⟨{ t with
            clock := clock, cursor := t.cursor + 1, pending := later, table := table, world := world
            running := some ⟨t.cursor, action, .begin applied.transition.completion⟩
            stats := t.stats.countDispatched.countApplied next.timed.isWait },
          .dispatched t.cursor next.timed clock :: .applied t.cursor applied.transition ::
            applied.phaseChanges.map .phaseChanged, some rest⟩
  | completed (hRunning : t.running = none) (hPending : t.pending = []) :
      TurnStep t budget
        ⟨{ t with
            table := t.table.settle.1, status := .completed
            stats := { t.stats with virtualTime := t.clock } },
          t.table.settle.2.map .phaseChanged ++
            [.completed t.clock { t.stats with virtualTime := t.clock }], none⟩

/-- A turn that tries an action does so at the clock at which the action is due. -/
theorem turnStep_tryNext {t : Timeline α} {budget clock rest : α} {next : PendingAction α}
    {later : List (PendingAction α)} (hRunning : t.running = none) (hPending : t.pending = next :: later)
    (hDue : t.Due next budget clock rest) : TurnStep t budget ({ t with clock := clock }.tryNext next later rest) := by
  unfold tryNext
  rw [dispatch_eq_attempt]
  dsimp only
  cases hAttempt : t.table.attempt next.decoded next.timed t.world clock with
  | error failure =>
    cases failure with
    | refused reason => exact .rejected hRunning hPending hDue hAttempt
    | crashed crash => exact .crashed hRunning hPending hDue hAttempt
  | ok result => exact .accepted hRunning hPending hDue hAttempt

/-- Every turn does one of the seven. -/
theorem turn_step (t : Timeline α) (budget : α) : TurnStep t budget (t.turn budget) := by
  cases hRunning : t.running with
  | some running =>
    cases hDone : (running.progress.advance budget).1.isComplete with
    | true =>
      simp only [turn, hRunning, continueRunning, hDone, if_true]
      exact .finished hRunning hDone rfl rfl
    | false =>
      simp only [turn, hRunning, continueRunning, hDone, Bool.false_eq_true, if_false]
      exact .continued hRunning hDone
  | none =>
    cases hPending : t.pending with
    | nil =>
      have hTurn : t.turn budget = ⟨t.complete.1, t.complete.2, none⟩ := by
        simp only [turn, hRunning, hPending]
      rw [hTurn]
      exact .completed hRunning hPending
    | cons next later =>
      have hTurn : t.turn budget = t.continueWaiting next later budget := by
        simp only [turn, hRunning, hPending]
      rw [hTurn]
      unfold continueWaiting
      dsimp only
      split
      · rename_i hWait
        split
        · rename_i hShort
          exact .waited hRunning hPending hWait hShort
        · rename_i hEnough
          exact turnStep_tryNext hRunning hPending (.ahead hWait hEnough)
      · rename_i hReached
        exact turnStep_tryNext hRunning hPending (.already hReached)

/-- No turn changes the speed. -/
theorem TurnStep.speed {t : Timeline α} {budget : α} {turn : Turn α} (hTurn : TurnStep t budget turn) :
    turn.timeline.speed = t.speed := by
  cases hTurn <;> rfl

/-- A turn that leaves time does not end the replay. -/
theorem TurnStep.status {t next : Timeline α} {budget rest : α} {events : List (ReplayEvent α)}
    (hTurn : TurnStep t budget ⟨next, events, some rest⟩) : next.status = t.status := by
  generalize hResult : (⟨next, events, some rest⟩ : Turn α) = turn at hTurn
  cases hTurn <;> cases hResult <;> rfl

-- ---------------------------------------------------------------------------
-- From turns to steps
-- ---------------------------------------------------------------------------

/--
**The rule of steps.** `P` speaks about the timeline before a turn, the time that is left and the events so
far. If every turn that leaves time keeps `P`, and every turn that ends the step leads from `P` to `Q`, then
the turns of a step lead from `P` to `Q`. The induction is the one by which steps end.
-/
theorem turns_induction {P : Timeline α → α → List (ReplayEvent α) → Prop}
    {Q : Timeline α → List (ReplayEvent α) → Prop}
    (hGo : ∀ {t next : Timeline α} {budget rest : α} {past events : List (ReplayEvent α)},
      P t budget past → TurnStep t budget ⟨next, events, some rest⟩ → P next rest (past ++ events))
    (hStop : ∀ {t next : Timeline α} {budget : α} {past events : List (ReplayEvent α)},
      P t budget past → TurnStep t budget ⟨next, events, none⟩ → Q next (past ++ events)) :
    ∀ {t : Timeline α} {budget : α} {past : List (ReplayEvent α)}, P t budget past →
      Q (t.turns budget).1 (past ++ (t.turns budget).2) := by
  intro t budget past h
  fun_induction turns t budget generalizing past with
  | case1 t budget first =>
    rename_i hRest
    have hTurn : TurnStep t budget ⟨first.timeline, first.events, none⟩ := by
      rw [← hRest]
      exact t.turn_step budget
    exact hStop h hTurn
  | case2 t budget first rest hRest last events hLater =>
    rename_i ih
    -- the turn is the first of those that are left
    have hTurn : TurnStep t budget ⟨first.timeline, first.events, some rest⟩ := by
      rw [← hRest]
      exact t.turn_step budget
    have hLast := ih (hGo h hTurn)
    rw [hLater, List.append_assoc] at hLast
    exact hLast

/-- The timeline once its counters tell the time that it has reached. -/
def noted (t : Timeline α) : Timeline α := { t with stats := { t.stats with virtualTime := t.clock } }

/-- A step of a timeline that runs is its turns. -/
theorem step_of_running {t : Timeline α} (hRunning : t.status = .running) (time : α) :
    t.step time =
      ((t.turns (Scalar.nonNegative (time * t.speed))).1.noted,
        (t.turns (Scalar.nonNegative (time * t.speed))).2) := by
  rw [step, if_pos hRunning]
  rfl

/-- Any other timeline does not step. -/
theorem step_of_not_running {t : Timeline α} (hStopped : t.status ≠ .running) (time : α) :
    t.step time = (t, []) := by
  rw [step, if_neg hStopped]

/-- No step changes the speed. -/
theorem speed_step (t : Timeline α) (time : α) : (t.step time).1.speed = t.speed := by
  by_cases hRunning : t.status = .running
  · rw [step_of_running hRunning]
    refine @turns_induction _ _ (fun next _ _ => next.speed = t.speed) (fun last _ => last.noted.speed = t.speed)
      ?_ ?_ t _ [] rfl
    · intro next after budget rest past events hSame hTurn
      exact hTurn.speed.trans hSame
    · intro next after budget past events hSame hTurn
      exact hTurn.speed.trans hSame
  · rw [step_of_not_running hRunning]

end Timeline

-- ---------------------------------------------------------------------------
-- From calls to runs
-- ---------------------------------------------------------------------------

/-- The calls by which a host drives a replay. -/
inductive HostCall (α : Type) where
  | start
  | step (time : α)
  | cancel
deriving DecidableEq

namespace Timeline

variable [Scalar α]

/-- The timeline after a call, and what happened. -/
def call (t : Timeline α) : HostCall α → Timeline α × List (ReplayEvent α)
  | .start => t.start
  | .step time => t.step time
  | .cancel => t.cancel

/-- The timeline after a sequence of calls, and everything that happened. -/
def calls (t : Timeline α) : List (HostCall α) → Timeline α × List (ReplayEvent α)
  | [] => (t, [])
  | first :: rest =>
    let (next, events) := t.call first
    let (last, more) := next.calls rest
    (last, events ++ more)

theorem calls_cons (t : Timeline α) (first : HostCall α) (rest : List (HostCall α)) :
    t.calls (first :: rest) =
      (((t.call first).1.calls rest).1, (t.call first).2 ++ ((t.call first).1.calls rest).2) :=
  rfl

/-- **The rule of runs.** What each of the calls keeps, about the timeline and the events so far, holds after
all of them. -/
theorem calls_induction {Q : Timeline α → List (ReplayEvent α) → Prop} {list : List (HostCall α)}
    (hCall : ∀ call ∈ list, ∀ (t : Timeline α) (past : List (ReplayEvent α)), Q t past →
      Q (t.call call).1 (past ++ (t.call call).2)) :
    ∀ {t : Timeline α} {past : List (ReplayEvent α)}, Q t past →
      Q (t.calls list).1 (past ++ (t.calls list).2) := by
  induction list with
  | nil =>
    intro t past h
    rw [show t.calls [] = (t, []) from rfl, List.append_nil]
    exact h
  | cons first rest ih =>
    intro t past h
    rw [calls_cons, ← List.append_assoc]
    exact ih (fun call hMem => hCall call (List.mem_cons_of_mem _ hMem))
      (hCall first List.mem_cons_self t past h)

end Timeline

end PlanReplay

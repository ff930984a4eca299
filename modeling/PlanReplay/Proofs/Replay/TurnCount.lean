import PlanReplay.Proofs.Replay.Trace

/-!
# How many turns a step takes

A step takes one turn for each action that it dispatches, one for each transition that it finishes, and one turn that
ends it. An action is dispatched once and its transition finished once, and so the number of turns is bounded by what is
left of the plan, whatever the times are.

* `Timeline.stepWithin` — a step that is given up after a number of turns.
* `Timeline.turnCount`, `Timeline.stepWithin_eq` — the number of turns that a step takes.
* `Timeline.turnCount_le`, `Timeline.step_ends` — the bound.
-/

namespace PlanReplay

variable {α : Type}

-- ---------------------------------------------------------------------------
-- Events that a turn leaves
-- ---------------------------------------------------------------------------

/-- The number of dispatches and of finished transitions. -/
def marks (events : List (ReplayEvent α)) : Nat := (dispatches events).length + (completions events).length

theorem marks_append (events later : List (ReplayEvent α)) : marks (events ++ later) = marks events + marks later := by
  unfold marks dispatches completions
  simp only [List.filterMap_append, List.length_append]
  omega

theorem marks_phaseChanged (changes : List PhaseChange) :
    marks (changes.map (ReplayEvent.phaseChanged (α := α))) = 0 := by
  simp [marks, dispatches, completions, List.filterMap_map, Function.comp_def]

namespace Timeline

variable [Scalar α]

/-- Every turn but the last one dispatches an action or finishes a transition. -/
theorem TurnStep.marks {t : Timeline α} {budget : α} {turn : Turn α} (h : TurnStep t budget turn) :
    marks turn.events = if turn.rest.isSome then 1 else 0 := by
  cases h with
  | continued hRunning hOpen => rfl
  | waited hRunning hPending hWait hShort => rfl
  | crashed hRunning hPending hDue hAttempt => rfl
  | rejected hRunning hPending hDue hAttempt => rfl
  | finished hRunning hDone hRest hClock =>
    exact (marks_append [_] _).trans (congrArg (1 + ·) (marks_phaseChanged _))
  | accepted hRunning hPending hDue hAttempt =>
    exact (marks_append [_, _] _).trans (congrArg (1 + ·) (marks_phaseChanged _))
  | completed hRunning hPending => exact (marks_append _ [_]).trans (congrArg (· + 0) (marks_phaseChanged _))

theorem marks_of_last {t : Timeline α} {budget : α} (h : (t.turn budget).rest = none) :
    marks (t.turn budget).events = 0 := by
  rw [(t.turn_step budget).marks, h]
  rfl

theorem marks_of_rest {t : Timeline α} {budget rest : α} (h : (t.turn budget).rest = some rest) :
    marks (t.turn budget).events = 1 := by
  rw [(t.turn_step budget).marks, h]
  rfl

-- ---------------------------------------------------------------------------
-- Steps with a limit
-- ---------------------------------------------------------------------------

/-- The turns of a step, given up if there are more than `limit` of them. -/
def turnsWithin : Nat → Timeline α → α → Option (Timeline α × List (ReplayEvent α))
  | 0, _, _ => none
  | limit + 1, t, budget =>
    let first := t.turn budget
    match first.rest with
    | none => some (first.timeline, first.events)
    | some rest => (turnsWithin limit first.timeline rest).map fun (last, events) => (last, first.events ++ events)

/-- A step, given up if it takes more than `limit` turns. -/
def stepWithin (limit : Nat) (t : Timeline α) (time : α) : Option (Timeline α × List (ReplayEvent α)) :=
  if t.status = .running then
    (turnsWithin limit t (Scalar.nonNegative (time * t.speed))).map fun (last, events) => (last.noted, events)
  else
    some (t, [])

/-- The number of turns that a step takes. -/
def turnCount (t : Timeline α) (time : α) : Nat := if t.status = .running then marks (t.step time).2 + 1 else 0

/-- The turns of a step are those that are not given up. The induction is the one by which steps end. -/
theorem turnsWithin_eq (t : Timeline α) (budget : α) (limit : Nat) :
    turnsWithin limit t budget = if marks (t.turns budget).2 + 1 ≤ limit then some (t.turns budget) else none := by
  fun_induction turns t budget generalizing limit with
  | case1 t budget first hRest =>
    rw [show marks first.events = 0 from marks_of_last hRest]
    cases limit with
    | zero => rfl
    | succ limit =>
      rw [if_pos (by omega)]
      unfold turnsWithin
      dsimp only
      rw [hRest]
  | case2 t budget first rest hRest last events hLater ih =>
    rw [hLater] at ih
    rw [marks_append, show marks first.events = 1 from marks_of_rest hRest]
    cases limit with
    | zero => rfl
    | succ limit =>
      have hNext : turnsWithin (limit + 1) t budget =
          (turnsWithin limit first.timeline rest).map fun (last, events) => (last, first.events ++ events) := by
        rw [turnsWithin]
        dsimp only
        rw [hRest]
      rw [hNext, ih]
      by_cases hEnough : marks events + 1 ≤ limit
      · rw [if_pos hEnough, if_pos (by omega)]
        rfl
      · rw [if_neg hEnough, if_neg (by omega)]
        rfl

/-- **The number of turns** of a step is the least limit with which it is not given up. -/
theorem stepWithin_eq (t : Timeline α) (time : α) (limit : Nat) :
    stepWithin limit t time = if t.turnCount time ≤ limit then some (t.step time) else none := by
  unfold stepWithin turnCount
  by_cases hRunning : t.status = .running
  · rw [if_pos hRunning, if_pos hRunning, turnsWithin_eq, step_of_running hRunning]
    split <;> rfl
  · rw [if_neg hRunning, if_neg hRunning, if_pos (Nat.zero_le limit), step_of_not_running hRunning]

-- ---------------------------------------------------------------------------
-- The bound
-- ---------------------------------------------------------------------------

/-- Each turn that leaves time takes from the workload. -/
theorem marks_turns_le (t : Timeline α) (budget : α) : marks (t.turns budget).2 ≤ t.workload := by
  fun_induction turns t budget with
  | case1 t budget first hRest =>
    rw [show marks first.events = 0 from marks_of_last hRest]
    exact Nat.zero_le _
  | case2 t budget first rest hRest last events hLater ih =>
    have hLess : first.timeline.workload < t.workload := workload_turn_lt hRest
    rw [hLater] at ih
    rw [marks_append, show marks first.events = 1 from marks_of_rest hRest]
    dsimp only at ih
    omega

theorem turnCount_le (t : Timeline α) (time : α) : t.turnCount time ≤ t.workload + 1 := by
  unfold turnCount
  split
  · rename_i hRunning
    rw [step_of_running hRunning]
    have hBound := marks_turns_le t (Scalar.nonNegative (time * t.speed))
    dsimp only
    omega
  · exact Nat.zero_le _

/--
**Every step ends**, with two turns for each action that is left and two more at most. With so many turns it gives what
the step gives, and so with any larger limit.
-/
theorem step_ends (t : Timeline α) (time : α) :
    ∃ count ≤ 2 * (t.length - t.cursor) + 2, ∀ limit,
      stepWithin limit t time = if count ≤ limit then some (t.step time) else none := by
  refine ⟨t.turnCount time, ?_, stepWithin_eq t time⟩
  have hCount := turnCount_le t time
  have hWorkload := t.workload_le
  unfold length
  omega

end Timeline

end PlanReplay

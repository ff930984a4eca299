import Mathlib.Order.Monotone.Basic
import PlanReplay.Proofs.Domain.Progress
import PlanReplay.Proofs.Replay.Rehearsal

/-!
# Due times

In exact numbers there is a time at which each action of a plan is due, at its start or when everything before it
is finished, whichever is later. Due times are computed from the plan and its rehearsal, without any replay.

* `dueTime`, `dueTime_mono` — when actions are due.
* `durationOf` — how long actions take, which their rehearsal tells.
* `Punctual` — events that keep to the due times.
-/

namespace PlanReplay

variable {exp : ℚ → ℚ}

-- ---------------------------------------------------------------------------
-- Due times
-- ---------------------------------------------------------------------------

section DueTime

variable (start duration : ℕ → Exact exp)

/-- When actions are due that are carried out one after the other: each waits for its start and for the end of
the one before it, and none begins before the clock does. -/
def dueTime : ℕ → Exact exp
  | 0 => max 0 (start 0)
  | i + 1 => max (start (i + 1)) (dueTime i + duration i)

/-- When everything before an action is finished. -/
def freeTime : ℕ → Exact exp
  | 0 => 0
  | i + 1 => dueTime start duration i + duration i

theorem dueTime_eq (i : ℕ) : dueTime start duration i = max (start i) (freeTime start duration i) := by
  cases i with
  | zero => exact max_comm _ _
  | succ i => rfl

theorem start_le_dueTime (i : ℕ) : start i ≤ dueTime start duration i := by
  rw [dueTime_eq]
  exact le_max_left _ _

theorem freeTime_le_dueTime (i : ℕ) : freeTime start duration i ≤ dueTime start duration i := by
  rw [dueTime_eq]
  exact le_max_right _ _

end DueTime

/-- The start times of actions. -/
def startOf (actions : List (TimedAction (Exact exp))) (i : ℕ) : Exact exp := actions[i]?.elim 0 TimedAction.start

/-- The times that actions take: the time of the transition of one that is accepted, and none for one that is
rejected. -/
def durationOf (table : ActionTable (Exact exp)) (world : World (Exact exp))
    (actions : List (TimedAction (Exact exp))) (i : ℕ) : Exact exp :=
  (Rehearsal.ofActions table world actions).outcomes[i]?.elim 0 Outcome.duration

theorem startOf_of_get {actions : List (TimedAction (Exact exp))} {i : ℕ} {a : TimedAction (Exact exp)}
    (h : actions[i]? = some a) : startOf actions i = a.start := by
  rw [startOf, h, Option.elim_some]

namespace Rehearsal

variable {α : Type} [Scalar α]

/-- Actions that are taken later leave the outcomes of those before them. -/
theorem outcomes_isPrefix (table : ActionTable α) (world : World α) (actions : List (TimedAction α)) (n : ℕ) :
    (ofActions table world (actions.take n)).outcomes <+: (ofActions table world actions).outcomes := by
  -- by induction on the actions that are taken later
  have hFold : ∀ (later : List (TimedAction α)) (r : Rehearsal α), r.outcomes <+: (later.foldl take r).outcomes := by
    intro later
    induction later with
    | nil => exact fun r => List.prefix_rfl
    | cons a rest ih =>
      intro r
      obtain ⟨outcome, hTake⟩ := r.outcomes_take a
      refine List.IsPrefix.trans ?_ (ih (r.take a))
      rw [hTake]
      exact List.prefix_append _ _
  have hWhole : ofActions table world actions =
      (actions.drop n).foldl take (ofActions table world (actions.take n)) := by
    unfold ofActions
    rw [← List.foldl_append, List.take_append_drop]
  rw [hWhole]
  exact hFold _ _

/-- The outcome of an action is the one that it has after those before it. -/
theorem outcome_of_take {table : ActionTable α} {world : World α} {actions : List (TimedAction α)} {n : ℕ}
    {a : TimedAction α} {outcome : Outcome α} (hGet : actions[n]? = some a)
    (hLength : (ofActions table world (actions.take n)).outcomes.length = n)
    (hTake : ((ofActions table world (actions.take n)).take a).outcomes =
      (ofActions table world (actions.take n)).outcomes ++ [outcome]) :
    (ofActions table world actions).outcomes[n]? = some outcome := by
  obtain ⟨later, hLater⟩ := outcomes_isPrefix table world actions (n + 1)
  rw [ofActions_take_succ table world hGet, hTake] at hLater
  -- the outcome stands behind those of the actions before it
  rw [← hLater, List.append_assoc, List.getElem?_append_right (Nat.le_of_eq hLength), hLength, Nat.sub_self]
  rfl

end Rehearsal

-- ---------------------------------------------------------------------------
-- Clocks of events
-- ---------------------------------------------------------------------------

namespace ReplayEvent

/-- The value of the clock that an event carries. -/
def clock? {α : Type} : ReplayEvent α → Option α
  | dispatched _ _ clock | finished _ clock | completed clock _ => some clock
  | applied _ _ | rejected _ _ _ | phaseChanged _ | aborted _ => none

/-- An event keeps to the due times, and tells of a transition that takes the time expected. -/
def OnTime (start duration : ℕ → Exact exp) : ReplayEvent (Exact exp) → Prop
  | dispatched index a clock => clock = dueTime start duration index ∧ a.start ≤ clock
  | applied index transition => duration index = transition.nominal
  | rejected index _ _ => duration index = 0
  | finished index clock => clock = dueTime start duration index + duration index
  | phaseChanged _ | completed _ _ | aborted _ => True

end ReplayEvent

/-- The events keep to the due times, their clocks never go back, and none is ahead of `now`. -/
structure Punctual (start duration : ℕ → Exact exp) (events : List (ReplayEvent (Exact exp)))
    (now : Exact exp) : Prop where
  onTime : ∀ event ∈ events, event.OnTime start duration
  ordered : (events.filterMap ReplayEvent.clock?).Pairwise (· ≤ ·)
  reached : ∀ clock ∈ events.filterMap ReplayEvent.clock?, clock ≤ now

namespace Punctual

variable {start duration : ℕ → Exact exp} {past events : List (ReplayEvent (Exact exp))} {now later : Exact exp}

theorem nil : Punctual start duration [] now :=
  ⟨fun _ hMem => absurd hMem List.not_mem_nil, .nil, fun _ hMem => absurd hMem List.not_mem_nil⟩

/-- The clock may go on. -/
theorem mono (h : Punctual start duration past now) (hLater : now ≤ later) :
    Punctual start duration past later :=
  ⟨h.onTime, h.ordered, fun clock hMem => (h.reached clock hMem).trans hLater⟩

/-- What happens at one point of time that is not before `now` may be added. -/
theorem append (h : Punctual start duration past now) (hLater : now ≤ later)
    (hNew : ∀ event ∈ events, event.OnTime start duration ∧ ∀ clock, event.clock? = some clock → clock = later) :
    Punctual start duration (past ++ events) later := by
  have hClock : ∀ clock ∈ events.filterMap ReplayEvent.clock?, clock = later := by
    intro clock hMem
    obtain ⟨event, hEvent, hSome⟩ := List.mem_filterMap.mp hMem
    exact (hNew event hEvent).2 clock hSome
  refine ⟨?_, ?_, ?_⟩
  · intro event hMem
    rcases List.mem_append.mp hMem with hPast | hNew'
    · exact h.onTime event hPast
    · exact (hNew event hNew').1
  · rw [List.filterMap_append, List.pairwise_append]
    refine ⟨h.ordered, ?_, ?_⟩
    -- the new clocks are all the same
    · refine List.pairwise_of_forall_mem_list ?_
      intro first hFirst second hSecond
      rw [hClock first hFirst, hClock second hSecond]
    · intro first hFirst second hSecond
      rw [hClock second hSecond]
      exact (h.reached first hFirst).trans hLater
  · intro clock hMem
    rw [List.filterMap_append] at hMem
    rcases List.mem_append.mp hMem with hPast | hNew
    · exact (h.reached clock hPast).trans hLater
    · exact le_of_eq (hClock clock hNew)

end Punctual

/-- Changes of phases are always on time, and carry no clock. -/
theorem phaseChanges_onTime (start duration : ℕ → Exact exp) (now : Exact exp) (changes : List PhaseChange) :
    ∀ event ∈ changes.map .phaseChanged,
      ReplayEvent.OnTime start duration event ∧ ∀ clock, event.clock? = some clock → clock = now := by
  intro event hMem
  obtain ⟨change, -, rfl⟩ := List.mem_map.mp hMem
  exact ⟨trivial, nofun⟩

end PlanReplay

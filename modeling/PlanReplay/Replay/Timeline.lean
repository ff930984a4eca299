import PlanReplay.Domain.Table
import PlanReplay.Replay.Event

/-!
# The timeline of a replay

A replay takes the actions of a plan one at a time. An action is dispatched once the virtual clock has
reached its start time and the transition before it is finished, so that a long transition delays all that
follows. Time is handed in by `Timeline.step`, scaled by the speed of the timeline.

A step is a sequence of turns. A turn finishes the running transition, dispatches the next action, or ends
the step; each turn but the last makes the `workload` smaller, and so every step ends. An action over which the
program ends has no outcome: the turn ends the step and the replay, and nothing happens to the timeline any more.
-/

namespace PlanReplay

variable {α : Type}

/-- An action that waits to be dispatched, with the domain's reading of it. -/
structure PendingAction (α : Type) where
  timed : TimedAction α
  decoded : Except DecodeError DomainAction

/-- An accepted action whose transition is not finished. -/
structure RunningAction (α : Type) where
  index : Nat
  action : DomainAction
  progress : Progress α
deriving DecidableEq

/-- The state of a replay. `cursor` actions have been dispatched, `pending` are left. -/
structure Timeline (α : Type) where
  speed : α
  table : ActionTable α
  world : World α
  cursor : Nat
  pending : List (PendingAction α)
  clock : α
  running : Option (RunningAction α)
  status : ReplayStatus
  stats : ReplayStats α

/-- One turn of a step: the timeline after it, what happened, and the time that is left for another turn;
a step ends with the turn that leaves none. -/
structure Turn (α : Type) where
  timeline : Timeline α
  events : List (ReplayEvent α)
  rest : Option α

namespace Timeline

section Basic

variable [Scalar α]

/-- The timeline of a plan before its start. -/
def ofPlan (speed : α) (table : ActionTable α) (world : World α) (plan : Plan α) : Timeline α where
  speed := speed
  table := table
  world := world
  cursor := 0
  pending := plan.actions.map fun timed => ⟨timed, table.decode timed⟩
  clock := 0
  running := none
  status := .idle
  stats := .zero

end Basic

/-- The number of actions of the plan. -/
def length (t : Timeline α) : Nat := t.cursor + t.pending.length

/-- Whether nothing more happens. -/
def isComplete (t : Timeline α) : Bool := t.status.isTerminal

/-- Starts a timeline that has not been started. One without actions ends at once. -/
def start (t : Timeline α) : Timeline α × List (ReplayEvent α) :=
  if t.status = .idle then
    if t.length = 0 then ({ t with status := .aborted .noPlan }, [.aborted .noPlan])
    else ({ t with status := .running }, [])
  else
    (t, [])

/-- Ends a timeline early. What the actions have done stays; a transition that runs is dropped. -/
def cancel (t : Timeline α) : Timeline α × List (ReplayEvent α) :=
  if t.isComplete then (t, [])
  else
    let (table, changes) := t.table.settle
    ({ t with table := table, running := none, status := .aborted .cancelled },
      changes.map .phaseChanged ++ [.aborted .cancelled])

/-- What is left to do: two turns for each action to dispatch, and one for a transition that runs. -/
def workload (t : Timeline α) : Nat := 2 * t.pending.length + if t.running.isSome then 1 else 0

/-- Ends a timeline whose last transition is finished. -/
def complete (t : Timeline α) : Timeline α × List (ReplayEvent α) :=
  let (table, changes) := t.table.settle
  let stats := { t.stats with virtualTime := t.clock }
  ({ t with table := table, status := .completed, stats := stats },
    changes.map .phaseChanged ++ [.completed t.clock stats])

variable [Scalar α]

/-- Tries an action, which is the next one of the plan; `later` are those after it. -/
def dispatch (t : Timeline α) (next : PendingAction α) (later : List (PendingAction α)) :
    Except Crash (Timeline α × List (ReplayEvent α)) :=
  let index := t.cursor
  let tried := { t with cursor := index + 1, pending := later, stats := t.stats.countDispatched }
  let announced : ReplayEvent α := .dispatched index next.timed t.clock
  let refused := fun reason : Rejection α =>
    ({ tried with stats := tried.stats.countRejected }, [announced, .rejected index next.timed reason])
  match next.decoded with
  | .error fault => .ok (refused (.undecoded fault))
  | .ok action =>
    match t.table.dispatch action next.timed t.world t.clock with
    | .error (.crashed crash) => .error crash
    | .error (.refused reason) => .ok (refused reason)
    | .ok (table, world, applied) =>
      .ok ({ tried with
          table := table
          world := world
          running := some ⟨index, action, .begin applied.transition.completion⟩
          stats := tried.stats.countApplied next.timed.isWait },
        announced :: .applied index applied.transition :: applied.phaseChanges.map .phaseChanged)

/-- The turn of a step in which the next action is tried. The time `rest` is left for another one, unless the program
ends over the action. -/
def tryNext (t : Timeline α) (next : PendingAction α) (later : List (PendingAction α)) (rest : α) : Turn α :=
  match t.dispatch next later with
  | .ok (tried, events) => ⟨tried, events, some rest⟩
  | .error crash => ⟨{ t with status := .crashed crash }, [], none⟩

/-- The turn of a step in which a transition runs: it goes on for the time that is left, and may finish. -/
def continueRunning (t : Timeline α) (running : RunningAction α) (budget : α) : Turn α :=
  let (progress, leftover) := running.progress.advance budget
  if progress.isComplete then
    let clock := t.clock + (budget - leftover)
    let (table, changes) := t.table.finish running.action
    ⟨{ t with clock := clock, table := table, running := none },
      .finished running.index clock :: changes.map .phaseChanged, some leftover⟩
  else
    ⟨{ t with clock := t.clock + budget, running := some { running with progress := progress } }, [], none⟩

/-- The turn of a step in which no transition runs: the clock goes on to the start of the next action, and
the action is dispatched if the time that is left suffices. -/
def continueWaiting (t : Timeline α) (next : PendingAction α) (later : List (PendingAction α)) (budget : α) :
    Turn α :=
  let wait := next.timed.start - t.clock
  if 0 < wait then
    if budget < wait then ⟨{ t with clock := t.clock + budget }, [], none⟩
    else { t with clock := next.timed.start }.tryNext next later (budget - wait)
  else
    t.tryNext next later budget

/-- One turn of a step. -/
def turn (t : Timeline α) (budget : α) : Turn α :=
  match t.running, t.pending with
  | some running, _ => t.continueRunning running budget
  | none, next :: later => t.continueWaiting next later budget
  | none, [] =>
    let (completed, events) := t.complete
    ⟨completed, events, none⟩

/-- A turn that tries an action and leaves time has taken it off the plan. -/
theorem pending_tryNext {t : Timeline α} {next : PendingAction α} {later : List (PendingAction α)} {rest left : α}
    (h : (t.tryNext next later rest).rest = some left) : (t.tryNext next later rest).timeline.pending = later := by
  unfold tryNext at h ⊢
  split
  · rename_i tried events hTried
    unfold dispatch at hTried
    dsimp only at hTried
    repeat' split at hTried
    all_goals cases hTried
    all_goals rfl
  · rename_i crash hCrash
    rw [hCrash] at h
    cases h

omit [Scalar α] in
theorem workload_le (t : Timeline α) : t.workload ≤ 2 * t.pending.length + 1 := by
  unfold workload
  split <;> omega

/-- A turn that leaves time for another one leaves less to do. -/
theorem workload_turn_lt {t : Timeline α} {budget rest : α} (h : (t.turn budget).rest = some rest) :
    (t.turn budget).timeline.workload < t.workload := by
  rcases hr : t.running with _ | running
  · rcases hp : t.pending with _ | ⟨next, later⟩
    · simp [turn, hr, hp] at h
    · have bound : ∀ (s : Timeline α) (left : α), (s.tryNext next later left).rest = some rest →
          (s.tryNext next later left).timeline.workload < t.workload := by
        intro s left hLeft
        have := workload_le (s.tryNext next later left).timeline
        rw [pending_tryNext hLeft] at this
        simp only [workload, hp, List.length_cons] at this ⊢
        omega
      simp only [turn, hr, hp, continueWaiting] at h ⊢
      split at h
      · split at h
        · cases h
        · rename_i hw hb
          rw [if_pos hw, if_neg hb]
          exact bound _ _ h
      · rename_i hw
        rw [if_neg hw]
        exact bound _ _ h
  · simp only [turn, hr, continueRunning] at h ⊢
    split
    · simp [workload, hr]
    · rename_i hc
      simp [hc] at h

/-- The turns of a step, from the first one to the one that ends the step. -/
def turns (t : Timeline α) (budget : α) : Timeline α × List (ReplayEvent α) :=
  let first := t.turn budget
  match _h : first.rest with
  | none => (first.timeline, first.events)
  | some rest =>
    let (last, events) := first.timeline.turns rest
    (last, first.events ++ events)
termination_by t.workload
decreasing_by exact workload_turn_lt ‹_›

/-- Hands a time to a timeline that runs. The time is scaled by the speed; less than nothing counts as
nothing. -/
def step (t : Timeline α) (time : α) : Timeline α × List (ReplayEvent α) :=
  if t.status = .running then
    let (last, events) := t.turns (Scalar.nonNegative (time * t.speed))
    ({ last with stats := { last.stats with virtualTime := last.clock } }, events)
  else
    (t, [])

end Timeline

end PlanReplay

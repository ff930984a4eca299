import PlanReplay.Proofs.Domain.Unclocked
import PlanReplay.Proofs.Replay.Orderly

/-!
# Rehearsals

A rehearsal takes the actions of a plan one after the other, without any time: each is decoded, dispatched
and, when it is accepted, finished. A replay does the same however its time is cut into steps, as long as no
action ends charging, the one thing that looks at the clock.

* `Rehearsal.take`, `Rehearsal.ofActions` — the interpreter.
* `Timeline.Follows` — how far a timeline has followed the rehearsal; every turn keeps it.
* `Timeline.completed_agree` — two replays that are complete agree with each other and with the rehearsal.
-/

namespace PlanReplay

variable {α : Type}

-- ---------------------------------------------------------------------------
-- Tries at different times
-- ---------------------------------------------------------------------------

namespace ActionTable

variable [Scalar α]

theorem dispatch_of_attempt {t table : ActionTable α} {decoded : Except DecodeError DomainAction}
    {a : TimedAction α} {w world : World α} {clock : α} {action : DomainAction} {applied : Applied α}
    (h : t.attempt decoded a w clock = .ok (action, table, world, applied)) :
    decoded = .ok action ∧ t.dispatch action a w clock = .ok (table, world, applied) := by
  unfold attempt at h
  cases decoded with
  | error fault => cases h
  | ok action' =>
    dsimp only at h
    cases hDispatch : t.dispatch action' a w clock with
    | error failure =>
      rw [hDispatch] at h
      cases h
    | ok result =>
      rw [hDispatch] at h
      cases h
      exact ⟨rfl, hDispatch⟩

/-- Tables that differ in points of time at most try an action alike, at whatever time, unless it ends
charging. -/
theorem attempt_alike {t t' : ActionTable α} (hAlike : t.unclocked = t'.unclocked)
    {decoded : Except DecodeError DomainAction}
    (hDecoded : ∀ action, decoded = .ok action → action.stopsCharge = false) (a : TimedAction α) (w : World α)
    (clock clock' : α) :
    (t.attempt decoded a w clock).map (Prod.map id unclockedResult) =
      (t'.attempt decoded a w clock').map (Prod.map id unclockedResult) := by
  cases decoded with
  | error fault => rfl
  | ok action =>
    have hDispatch := dispatch_alike hAlike (hDecoded action rfl) a w clock clock'
    unfold attempt
    dsimp only
    -- both fail or both are accepted
    cases hFirst : t.dispatch action a w clock <;> cases hSecond : t'.dispatch action a w clock' <;>
      rw [hFirst, hSecond] at hDispatch
    · exact congrArg Except.error (Except.error.inj hDispatch)
    · cases hDispatch
    · cases hDispatch
    · exact congrArg (fun result => Except.ok (action, result)) (Except.ok.inj hDispatch)

section

variable {t t' : ActionTable α} (hAlike : t.unclocked = t'.unclocked) {decoded : Except DecodeError DomainAction}
  (hDecoded : ∀ action, decoded = .ok action → action.stopsCharge = false) {a : TimedAction α} {w : World α}
  {clock : α} (clock' : α)

include hAlike hDecoded

theorem attempt_alike_error {failure : Failure (Rejection α)} (h : t.attempt decoded a w clock = .error failure) :
    t'.attempt decoded a w clock' = .error failure := by
  have hSame := attempt_alike hAlike hDecoded a w clock clock'
  rw [h] at hSame
  cases hSecond : t'.attempt decoded a w clock' with
  | error failure' =>
    rw [hSecond] at hSame
    exact hSame.symm
  | ok result =>
    rw [hSecond] at hSame
    cases hSame

theorem attempt_alike_ok {action : DomainAction} {table : ActionTable α} {world : World α} {applied : Applied α}
    (h : t.attempt decoded a w clock = .ok (action, table, world, applied)) :
    ∃ table', t'.attempt decoded a w clock' = .ok (action, table', world, applied) ∧
      table.unclocked = table'.unclocked := by
  have hSame := attempt_alike hAlike hDecoded a w clock clock'
  rw [h] at hSame
  cases hSecond : t'.attempt decoded a w clock' with
  | error failure' =>
    rw [hSecond] at hSame
    cases hSame
  | ok result =>
    obtain ⟨action', table', world', applied'⟩ := result
    rw [hSecond] at hSame
    simp only [Except.map, Prod.map, unclockedResult, id, Except.ok.injEq, Prod.mk.injEq] at hSame
    obtain ⟨rfl, hTable, rfl, rfl⟩ := hSame
    exact ⟨table', rfl, hTable⟩

end

end ActionTable

-- ---------------------------------------------------------------------------
-- The interpreter
-- ---------------------------------------------------------------------------

/-- What becomes of an action that is tried. -/
inductive Outcome (α : Type) where
  | rejected (reason : Rejection α)
  /-- The program ends over the action. A rehearsal goes on without it; a replay that tries it is over. -/
  | crashed (crash : Crash)
  /-- The action is accepted; `landed` are the phases that change when its transition is finished. -/
  | accepted (applied : Applied α) (landed : List PhaseChange)

namespace Outcome

/-- What becomes of an action that is not accepted. -/
def ofFailure : Failure (Rejection α) → Outcome α
  | .refused reason => rejected reason
  | .crashed crash => crashed crash

/-- What happens when an action is tried, without any time. -/
def events [Zero α] (index : Nat) (a : TimedAction α) : Outcome α → List (ReplayEvent α)
  | rejected reason => [.dispatched index a 0, .rejected index a reason]
  | crashed _ => []
  | accepted applied landed =>
    .dispatched index a 0 :: .applied index applied.transition :: applied.phaseChanges.map .phaseChanged ++
      .finished index 0 :: landed.map .phaseChanged

/-- The time that an action takes; one that is not accepted takes none. -/
def duration [Scalar α] : Outcome α → α
  | rejected _ | crashed _ => 0
  | accepted applied _ => applied.transition.nominal

end Outcome

/-- Where a rehearsal stands, with the outcomes of the actions and the events so far. -/
structure Rehearsal (α : Type) where
  table : ActionTable α
  world : World α
  outcomes : List (Outcome α)
  events : List (ReplayEvent α)

namespace Rehearsal

variable [Scalar α]

/-- Takes the next action: decodes it, dispatches it and, when it is accepted, finishes it. -/
def take (r : Rehearsal α) (a : TimedAction α) : Rehearsal α :=
  let index := r.outcomes.length
  match r.table.attempt (r.table.decode a) a r.world 0 with
  | .error failure =>
    let outcome := .ofFailure failure
    { r with outcomes := r.outcomes ++ [outcome], events := r.events ++ outcome.events index a }
  | .ok (action, table, world, applied) =>
    let (finished, landed) := table.finish action
    let outcome := .accepted applied landed
    ⟨finished, world, r.outcomes ++ [outcome], r.events ++ outcome.events index a⟩

/-- The rehearsal of a list of actions. -/
def ofActions (table : ActionTable α) (world : World α) (actions : List (TimedAction α)) : Rehearsal α :=
  actions.foldl take ⟨table, world, [], []⟩

theorem take_of_failed {r : Rehearsal α} {a : TimedAction α} {failure : Failure (Rejection α)}
    (h : r.table.attempt (r.table.decode a) a r.world 0 = .error failure) :
    r.take a =
      { r with
        outcomes := r.outcomes ++ [.ofFailure failure]
        events := r.events ++ Outcome.events r.outcomes.length a (.ofFailure failure) } := by
  unfold take
  rw [h]

theorem take_of_accepted {r : Rehearsal α} {a : TimedAction α} {action : DomainAction} {table : ActionTable α}
    {world : World α} {applied : Applied α}
    (h : r.table.attempt (r.table.decode a) a r.world 0 = .ok (action, table, world, applied)) :
    r.take a =
      ⟨(table.finish action).1, world, r.outcomes ++ [.accepted applied (table.finish action).2],
        r.events ++ Outcome.events r.outcomes.length a (.accepted applied (table.finish action).2)⟩ := by
  unfold take
  rw [h]

theorem outcomes_take (r : Rehearsal α) (a : TimedAction α) :
    ∃ outcome, (r.take a).outcomes = r.outcomes ++ [outcome] := by
  cases hAttempt : r.table.attempt (r.table.decode a) a r.world 0 with
  | error failure =>
    rw [take_of_failed hAttempt]
    exact ⟨_, rfl⟩
  | ok result =>
    rw [take_of_accepted hAttempt]
    exact ⟨_, rfl⟩

theorem domain_take (r : Rehearsal α) (a : TimedAction α) : (r.take a).table.domain = r.table.domain := by
  cases hAttempt : r.table.attempt (r.table.decode a) a r.world 0 with
  | error failure => rw [take_of_failed hAttempt]
  | ok result =>
    rw [take_of_accepted hAttempt, ActionTable.domain_finish]
    exact ActionTable.domain_dispatch (ActionTable.dispatch_of_attempt hAttempt).2

/-- Nothing is in flight between two actions. -/
theorem settled_take {r : Rehearsal α} (h : r.table.Settled) (a : TimedAction α) :
    (r.take a).table.Settled := by
  cases hAttempt : r.table.attempt (r.table.decode a) a r.world 0 with
  | error failure =>
    rw [take_of_failed hAttempt]
    exact h
  | ok result =>
    rw [take_of_accepted hAttempt]
    exact ActionTable.settled_finish h (ActionTable.dispatch_of_attempt hAttempt).2

variable (table : ActionTable α) (world : World α)

theorem ofActions_concat (past : List (TimedAction α)) (a : TimedAction α) :
    ofActions table world (past ++ [a]) = (ofActions table world past).take a := by
  unfold ofActions
  rw [List.foldl_append, List.foldl_cons, List.foldl_nil]

theorem ofActions_take_succ {actions : List (TimedAction α)} {n : Nat} {a : TimedAction α}
    (h : actions[n]? = some a) :
    ofActions table world (actions.take (n + 1)) = (ofActions table world (actions.take n)).take a := by
  rw [List.take_add_one, h, Option.toList_some, ofActions_concat]

/-- What holds at first and is kept by every action holds of every rehearsal. -/
theorem ofActions_induction {P : List (TimedAction α) → Rehearsal α → Prop} (hFirst : P [] ⟨table, world, [], []⟩)
    (hTake : ∀ past r a, P past r → P (past ++ [a]) (r.take a)) (actions : List (TimedAction α)) :
    P actions (ofActions table world actions) := by
  induction actions using List.reverseRecOn with
  | nil => exact hFirst
  | append_singleton past a ih =>
    rw [ofActions_concat]
    exact hTake past _ a ih

theorem length_outcomes (actions : List (TimedAction α)) :
    (ofActions table world actions).outcomes.length = actions.length := by
  refine ofActions_induction table world (P := fun past r => r.outcomes.length = past.length) rfl ?_ actions
  intro past r a h
  obtain ⟨outcome, hTake⟩ := r.outcomes_take a
  rw [hTake, List.length_append, List.length_append, h]
  rfl

theorem domain_ofActions (actions : List (TimedAction α)) :
    (ofActions table world actions).table.domain = table.domain := by
  refine ofActions_induction table world (P := fun _ r => r.table.domain = table.domain) rfl ?_ actions
  intro past r a h
  rw [domain_take, h]

variable {table} in
theorem settled_ofActions (hSettled : table.Settled) (actions : List (TimedAction α)) :
    (ofActions table world actions).table.Settled := by
  refine ofActions_induction table world (P := fun _ r => r.table.Settled) hSettled ?_ actions
  intro past r a h
  exact settled_take h a

end Rehearsal

-- ---------------------------------------------------------------------------
-- Events without time
-- ---------------------------------------------------------------------------

namespace ReplayEvent

/-- An event without the values of the clock. -/
def untimed [Zero α] : ReplayEvent α → ReplayEvent α
  | dispatched index a _ => .dispatched index a 0
  | finished index _ => .finished index 0
  | completed _ stats => .completed 0 stats.untimed
  | applied index transition => .applied index transition
  | rejected index a reason => .rejected index a reason
  | phaseChanged change => .phaseChanged change
  | aborted reason => .aborted reason

theorem map_untimed_phaseChanges [Zero α] (changes : List PhaseChange) :
    (changes.map ReplayEvent.phaseChanged).map untimed = changes.map (phaseChanged (α := α)) := by
  rw [List.map_map]
  rfl

end ReplayEvent

/-- Counting events does not look at the clock. -/
theorem ReplayStats.tally_untimed [Zero α] (actions : List (TimedAction α)) (events : List (ReplayEvent α)) :
    tally actions (events.map ReplayEvent.untimed) = tally actions events := by
  unfold tally
  rw [List.foldl_map]
  congr 1
  funext s event
  cases event <;> rfl

-- ---------------------------------------------------------------------------
-- Following a rehearsal
-- ---------------------------------------------------------------------------

/-- The table once the transition that runs is finished, and what will have happened then. -/
def ActionTable.landing [Zero α] (t : ActionTable α) :
    Option (RunningAction α) → ActionTable α × List (ReplayEvent α)
  | none => (t, [])
  | some running =>
    ((t.finish running.action).1, .finished running.index 0 :: (t.finish running.action).2.map .phaseChanged)

namespace Timeline

variable [Scalar α]

/-- A timeline has followed the rehearsal of a plan as far as its cursor: but for the end of the transition that
runs, the same has happened, and table and world are the same, without any time. -/
structure Follows (table : ActionTable α) (world : World α) (actions : List (TimedAction α)) (t : Timeline α)
    (past : List (ReplayEvent α)) : Prop where
  pending : t.pending = (actions.drop t.cursor).map fun a => ⟨a, table.decode a⟩
  sameEvents : past.map .untimed ++ (t.table.landing t.running).2 =
    (Rehearsal.ofActions table world (actions.take t.cursor)).events
  sameTable : (t.table.landing t.running).1.unclocked = (Rehearsal.ofActions table world (actions.take t.cursor)).table.unclocked
  sameWorld : t.world = (Rehearsal.ofActions table world (actions.take t.cursor)).world

namespace Follows

variable {table : ActionTable α} {world : World α} {actions : List (TimedAction α)} {t : Timeline α}
  {past : List (ReplayEvent α)}

/-- The next action is the one of the plan at the cursor, decoded for the domain. -/
theorem next (h : t.Follows table world actions past) {next : PendingAction α} {later : List (PendingAction α)}
    (hPending : t.pending = next :: later) :
    actions[t.cursor]? = some next.timed ∧ next.decoded = table.decode next.timed ∧
      later = (actions.drop (t.cursor + 1)).map fun a => ⟨a, table.decode a⟩ := by
  have hDrop := h.pending
  rw [hPending] at hDrop
  -- past the end of the plan nothing would be pending
  have hInPlan : t.cursor < actions.length := by
    by_contra hPast
    rw [List.drop_eq_nil_of_le (Nat.not_lt.mp hPast)] at hDrop
    cases hDrop
  rw [List.drop_eq_getElem_cons hInPlan, List.map_cons] at hDrop
  obtain ⟨rfl, rfl⟩ := List.cons.inj hDrop
  exact ⟨List.getElem?_eq_getElem hInPlan, rfl, rfl⟩

/-- The rehearsal has tried as many actions as the timeline. -/
theorem length_outcomes (h : t.Follows table world actions past) {next : PendingAction α}
    {later : List (PendingAction α)} (hPending : t.pending = next :: later) :
    (Rehearsal.ofActions table world (actions.take t.cursor)).outcomes.length = t.cursor := by
  obtain ⟨hGet, -⟩ := h.next hPending
  rw [Rehearsal.length_outcomes]
  exact List.length_take_of_le (Nat.le_of_lt (List.getElem?_eq_some_iff.mp hGet).1)

/-- What is decoded for a plan that never ends charging does not end charging. -/
theorem stopsCharge (h : t.Follows table world actions past) (hNames : ∀ a ∈ actions, a.name ≠ "stopcharge")
    {next : PendingAction α} {later : List (PendingAction α)} (hPending : t.pending = next :: later) :
    ∀ action, next.decoded = .ok action → action.stopsCharge = false := by
  intro action hAction
  obtain ⟨hGet, hDecoded, -⟩ := h.next hPending
  rw [hDecoded] at hAction
  exact ActionTable.decode_stopsCharge (hNames _ (List.mem_of_getElem? hGet)) hAction

/-- The rehearsal tries the next action as the timeline does, whatever its clock. -/
theorem attempt_error (h : t.Follows table world actions past) (hNames : ∀ a ∈ actions, a.name ≠ "stopcharge")
    (hRunning : t.running = none) {next : PendingAction α} {later : List (PendingAction α)}
    (hPending : t.pending = next :: later) {clock : α} {failure : Failure (Rejection α)}
    (hAttempt : t.table.attempt next.decoded next.timed t.world clock = .error failure) :
    let r := Rehearsal.ofActions table world (actions.take t.cursor)
    r.table.attempt (r.table.decode next.timed) next.timed r.world 0 = .error failure := by
  intro r
  obtain ⟨-, hDecoded, -⟩ := h.next hPending
  have hTable := h.sameTable
  rw [hRunning] at hTable
  rw [ActionTable.decode_congr (Rehearsal.domain_ofActions table world _), ← hDecoded, ← h.sameWorld]
  exact ActionTable.attempt_alike_error hTable (h.stopsCharge hNames hPending) 0 hAttempt

theorem attempt_ok (h : t.Follows table world actions past) (hNames : ∀ a ∈ actions, a.name ≠ "stopcharge")
    (hRunning : t.running = none) {next : PendingAction α} {later : List (PendingAction α)}
    (hPending : t.pending = next :: later) {clock : α} {action : DomainAction} {after : ActionTable α}
    {changed : World α} {applied : Applied α}
    (hAttempt : t.table.attempt next.decoded next.timed t.world clock = .ok (action, after, changed, applied)) :
    let r := Rehearsal.ofActions table world (actions.take t.cursor)
    ∃ after', r.table.attempt (r.table.decode next.timed) next.timed r.world 0 =
      .ok (action, after', changed, applied) ∧ after.unclocked = after'.unclocked := by
  intro r
  obtain ⟨-, hDecoded, -⟩ := h.next hPending
  have hTable := h.sameTable
  rw [hRunning] at hTable
  rw [ActionTable.decode_congr (Rehearsal.domain_ofActions table world _), ← hDecoded, ← h.sameWorld]
  exact ActionTable.attempt_alike_ok hTable (h.stopsCharge hNames hPending) 0 hAttempt

/-- The virtual time that a step notes plays no part. -/
theorem noted (h : t.Follows table world actions past) : t.noted.Follows table world actions past :=
  ⟨h.pending, h.sameEvents, h.sameTable, h.sameWorld⟩

/-- Every turn that does not end the replay keeps following. -/
theorem turn (h : t.Follows table world actions past) (hNames : ∀ a ∈ actions, a.name ≠ "stopcharge")
    {budget : α} {turn : Turn α} (hTurn : TurnStep t budget turn) (hLive : turn.timeline.isComplete = false) :
    turn.timeline.Follows table world actions (past ++ turn.events) := by
  have hEvents := h.sameEvents
  have hTable := h.sameTable
  cases hTurn with
  | @continued running hRunning hOpen =>
    rw [hRunning] at hEvents hTable
    refine ⟨h.pending, ?_, hTable, h.sameWorld⟩
    rw [List.append_nil]
    exact hEvents
  | @finished running rest clock hRunning hDone hRest hClock =>
    rw [hRunning] at hEvents hTable
    refine ⟨h.pending, ?_, hTable, h.sameWorld⟩
    -- what was to happen has happened
    dsimp only [ActionTable.landing]
    rw [List.append_nil, List.map_append, List.map_cons, ReplayEvent.map_untimed_phaseChanges]
    exact hEvents
  | waited hRunning hPending hWait hShort =>
    refine ⟨h.pending, ?_, hTable, h.sameWorld⟩
    rw [List.append_nil]
    exact hEvents
  | @rejected next later clock rest reason hRunning hPending hDue hAttempt =>
    obtain ⟨hGet, -, hLater⟩ := h.next hPending
    have hTake := Rehearsal.take_of_failed (h.attempt_error hNames hRunning hPending hAttempt)
    rw [h.length_outcomes hPending] at hTake
    -- the rehearsal is rejected as well, with the same events
    rw [hRunning] at hEvents hTable
    dsimp only [ActionTable.landing] at hEvents
    rw [List.append_nil] at hEvents
    refine ⟨hLater, ?_, ?_, ?_⟩
    · rw [Rehearsal.ofActions_take_succ table world hGet, hTake]
      dsimp only
      rw [hRunning, List.map_append, hEvents]
      exact List.append_nil _
    · rw [Rehearsal.ofActions_take_succ table world hGet, hTake]
      dsimp only
      rw [hRunning]
      exact hTable
    · rw [Rehearsal.ofActions_take_succ table world hGet, hTake]
      exact h.sameWorld
  | @accepted next later clock rest action after changed applied hRunning hPending hDue hAttempt =>
    obtain ⟨hGet, -, hLater⟩ := h.next hPending
    obtain ⟨after', hAttempt', hAfter⟩ := h.attempt_ok hNames hRunning hPending hAttempt
    have hTake := Rehearsal.take_of_accepted hAttempt'
    rw [h.length_outcomes hPending] at hTake
    -- the rehearsal goes on to the end of the transition, which is still to come here
    rw [hRunning] at hEvents
    dsimp only [ActionTable.landing] at hEvents
    rw [List.append_nil] at hEvents
    obtain ⟨hFinished, hLanded⟩ := ActionTable.finish_alike hAfter action
    refine ⟨hLater, ?_, ?_, ?_⟩
    · rw [Rehearsal.ofActions_take_succ table world hGet, hTake]
      dsimp only [ActionTable.landing, Outcome.events]
      rw [List.map_append, List.map_cons, List.map_cons, ReplayEvent.map_untimed_phaseChanges, hEvents, hLanded,
        List.append_assoc]
      rfl
    · rw [Rehearsal.ofActions_take_succ table world hGet, hTake]
      exact hFinished
    · rw [Rehearsal.ofActions_take_succ table world hGet, hTake]
  | completed hRunning hPending | crashed hRunning hPending hDue hAttempt => cases hLive

end Follows

-- ---------------------------------------------------------------------------
-- Complete replays
-- ---------------------------------------------------------------------------

/-- A timeline has followed the rehearsal of its whole plan, and has told the counters of what happened. -/
structure Completes (table : ActionTable α) (world : World α) (actions : List (TimedAction α)) (t : Timeline α)
    (past : List (ReplayEvent α)) : Prop where
  sameEvents : past.map .untimed = (Rehearsal.ofActions table world actions).events ++
    [.completed 0 (.tally actions (Rehearsal.ofActions table world actions).events)]
  sameTable : t.table.unclocked = (Rehearsal.ofActions table world actions).table.unclocked
  sameWorld : t.world = (Rehearsal.ofActions table world actions).world

variable {table : ActionTable α} {world : World α} {actions : List (TimedAction α)} {t : Timeline α}
  {past : List (ReplayEvent α)}

/-- The turn that completes a replay adds nothing but its last event. -/
theorem Follows.completes (h : t.Follows table world actions past) (hTraced : t.Traced actions past)
    (hSettled : table.Settled) (hLive : t.isComplete = false) {budget : α} {turn : Turn α}
    (hTurn : TurnStep t budget turn) (hDone : turn.timeline.status = .completed) :
    turn.timeline.Completes table world actions (past ++ turn.events) := by
  have hOther : t.status ≠ .completed := by
    intro hStatus
    cases hLive.symm.trans (isComplete_eq hStatus)
  cases hTurn with
  | completed hRunning hPending =>
    have hAll : actions.take t.cursor = actions := by
      rw [hTraced.cursor_eq_length hPending, List.take_length]
    have hEvents := h.sameEvents
    have hTable := h.sameTable
    have hWorld := h.sameWorld
    rw [hRunning, hAll] at hEvents hTable
    rw [hAll] at hWorld
    dsimp only [ActionTable.landing] at hEvents hTable
    rw [List.append_nil] at hEvents
    -- nothing is in flight, and so the end changes no phase
    have hSettle : t.table.settle = (t.table, []) :=
      ActionTable.settle_of_settled
        (ActionTable.settled_alike hTable.symm (Rehearsal.settled_ofActions world hSettled actions))
    -- the counters are those of the events, which are the same without the clock
    have hStats : t.stats.untimed =
        .tally actions (Rehearsal.ofActions table world actions).events := by
      rw [hTraced.tally, ← ReplayStats.tally_untimed, hEvents]
    rw [hSettle]
    refine ⟨?_, hTable, hWorld⟩
    rw [List.map_nil, List.nil_append, List.map_append, hEvents, ← hStats]
    rfl
  | crashed => cases hDone
  | continued | finished | waited | rejected | accepted => exact absurd hDone hOther

/-- What every call keeps about a replay and the rehearsal of its plan. -/
structure Rehearsed (table : ActionTable α) (world : World α) (actions : List (TimedAction α)) (t : Timeline α)
    (past : List (ReplayEvent α)) : Prop where
  traced : t.Traced actions past
  follows : t.isComplete = false → t.Follows table world actions past
  completes : t.status = .completed → t.Completes table world actions past

namespace Rehearsed

/-- The virtual time that a step notes plays no part. -/
theorem noted (h : t.Rehearsed table world actions past) : t.noted.Rehearsed table world actions past := by
  refine ⟨h.traced.noted, ?_, ?_⟩
  · intro hLive
    exact (h.follows hLive).noted
  · intro hDone
    obtain ⟨hEvents, hTable, hWorld⟩ := h.completes hDone
    exact ⟨hEvents, hTable, hWorld⟩

/-- What every turn keeps, a step keeps. -/
theorem step (h : t.Rehearsed table world actions past) (hSettled : table.Settled)
    (hNames : ∀ a ∈ actions, a.name ≠ "stopcharge") (time : α) :
    (t.step time).1.Rehearsed table world actions (past ++ (t.step time).2) := by
  by_cases hRunning : t.status = .running
  · have hLive : t.isComplete = false := isComplete_eq hRunning
    rw [step_of_running hRunning]
    refine noted ?_
    -- over the turns of the step, the last one of which may complete the replay
    refine turns_induction
      (P := fun t _ past => t.Traced actions past ∧ t.isComplete = false ∧ t.Follows table world actions past)
      (Q := fun t past => t.Rehearsed table world actions past) ?_ ?_ ⟨h.traced, hLive, h.follows hLive⟩
    · rintro t next budget rest past events ⟨hTraced, hOpen, hFollows⟩ hTurn
      have hNext : next.isComplete = false := (isComplete_eq hTurn.status).trans hOpen
      exact ⟨hTraced.turn hOpen hTurn, hNext, hFollows.turn hNames hTurn hNext⟩
    · rintro t next budget past events ⟨hTraced, hOpen, hFollows⟩ hTurn
      exact ⟨hTraced.turn hOpen hTurn, hFollows.turn hNames hTurn,
        hFollows.completes hTraced hSettled hOpen hTurn⟩
  · rw [step_of_not_running hRunning, List.append_nil]
    exact h

theorem start (h : t.Rehearsed table world actions past) :
    t.start.1.Rehearsed table world actions (past ++ t.start.2) := by
  refine ⟨h.traced.start, ?_, ?_⟩
  · unfold Timeline.start
    split
    · rename_i hIdle
      split
      · nofun
      · intro _
        rw [List.append_nil]
        obtain ⟨hPending, hEvents, hTable, hWorld⟩ := h.follows (isComplete_eq hIdle)
        exact ⟨hPending, hEvents, hTable, hWorld⟩
    · rw [List.append_nil]
      exact h.follows
  · unfold Timeline.start
    split
    · split <;> nofun
    · rw [List.append_nil]
      exact h.completes

theorem cancel (h : t.Rehearsed table world actions past) :
    t.cancel.1.Rehearsed table world actions (past ++ t.cancel.2) := by
  refine ⟨h.traced.cancel, ?_, ?_⟩
  all_goals
    unfold Timeline.cancel
    split
    · rw [List.append_nil]
      first
      | exact h.follows
      | exact h.completes
    · nofun

theorem call (h : t.Rehearsed table world actions past) (hSettled : table.Settled)
    (hNames : ∀ a ∈ actions, a.name ≠ "stopcharge") (call : HostCall α) :
    (t.call call).1.Rehearsed table world actions (past ++ (t.call call).2) := by
  cases call with
  | start => exact h.start
  | step time => exact h.step hSettled hNames time
  | cancel => exact h.cancel

end Rehearsed

/-- A timeline that has not been started is where a rehearsal begins. -/
theorem ofPlan_rehearsed (speed : α) (table : ActionTable α) (world : World α) (plan : Plan α) :
    (ofPlan speed table world plan).Rehearsed table world plan.actions [] :=
  ⟨ofPlan_traced speed table world plan, fun _ => ⟨rfl, rfl, rfl, rfl⟩, nofun⟩

/-- Every run of a plan that never ends charging follows the rehearsal of the plan. -/
theorem calls_rehearsed (speed : α) {table : ActionTable α} (hSettled : table.Settled) (world : World α)
    (plan : Plan α) (hNames : ∀ a ∈ plan.actions, a.name ≠ "stopcharge") (calls : List (HostCall α)) :
    ((ofPlan speed table world plan).calls calls).1.Rehearsed table world plan.actions
      ((ofPlan speed table world plan).calls calls).2 :=
  calls_induction (Q := fun t past => t.Rehearsed table world plan.actions past)
    (fun call _ _ _ h => h.call hSettled hNames call) (ofPlan_rehearsed speed table world plan)

/--
**Replays do what rehearsals do.** Take a plan that never ends charging, a table that is prepared and its world,
two speeds, and two sequences of calls with whatever times. If both replays become complete, then the same
has happened in both but for the values of the clock, and worlds and phases are the same in the end; and
they are those of the rehearsal, which takes the actions in order without any time.
-/
theorem completed_agree {unprepared table : ActionTable α} {initial world : World α}
    (hPrepared : unprepared.prepare initial = .ok (table, world)) (plan : Plan α)
    (hNames : ∀ a ∈ plan.actions, a.name ≠ "stopcharge") (speed speed' : α) (calls calls' : List (HostCall α))
    (hFirst : ((ofPlan speed table world plan).calls calls).1.status = .completed)
    (hSecond : ((ofPlan speed' table world plan).calls calls').1.status = .completed) :
    let first := (ofPlan speed table world plan).calls calls
    let second := (ofPlan speed' table world plan).calls calls'
    let rehearsal := Rehearsal.ofActions table world plan.actions
    (first.2.map .untimed = second.2.map ReplayEvent.untimed ∧ first.1.world = second.1.world ∧
      ∀ id, first.1.table.phase? id = second.1.table.phase? id) ∧
    first.2.map .untimed = rehearsal.events ++ [.completed 0 (.tally plan.actions rehearsal.events)] ∧
      first.1.world = rehearsal.world ∧ ∀ id, first.1.table.phase? id = rehearsal.table.phase? id := by
  intro first second rehearsal
  have hSettled := ActionTable.settled_prepare hPrepared
  have hLeft : first.1.Completes table world plan.actions first.2 :=
    (calls_rehearsed speed hSettled world plan hNames calls).completes hFirst
  have hRight : second.1.Completes table world plan.actions second.2 :=
    (calls_rehearsed speed' hSettled world plan hNames calls').completes hSecond
  -- phases are read off a table without the points of time
  have hPhase : ∀ {t t' : ActionTable α}, t.unclocked = t'.unclocked → ∀ id, t.phase? id = t'.phase? id := by
    intro t t' hAlike id
    rw [← ActionTable.phase?_unclocked, hAlike, ActionTable.phase?_unclocked]
  refine ⟨⟨?_, ?_, ?_⟩, hLeft.sameEvents, hLeft.sameWorld, hPhase hLeft.sameTable⟩
  · rw [hLeft.sameEvents, hRight.sameEvents]
  · rw [hLeft.sameWorld, hRight.sameWorld]
  · exact hPhase (hLeft.sameTable.trans hRight.sameTable.symm)

/-- A robot charges, an action without a meaning is rejected, and a wait ends the plan: once with a time that is
no number, a negative one and a huge one, and once in many steps at half the speed. -/
theorem completed_agree_of_odd_times :
    let initial : World Float :=
      (((World.empty.declare ⟨"r"⟩ .robot).declare ⟨"a"⟩ .room).declare ⟨"b"⟩ .room)
    let unprepared : ActionTable Float := .robot (.ofConfig .default)
    let plan : Plan Float :=
      ⟨.temporal, [⟨0, 1, "startcharge", [⟨"r"⟩], 1⟩, ⟨0, 0, "fly", [], 2⟩, .wait 5 1 3], []⟩
    ∃ table world, unprepared.prepare initial = .ok (table, world) ∧
      let first := (ofPlan 1 table world plan).calls [.start, .step (0 / 0), .step (-3), .step 1e300]
      let second := (ofPlan 0.5 table world plan).calls [.start, .step 0.7, .step 4, .step 6, .step 9]
      first.1.status = .completed ∧ second.1.status = .completed ∧ first.2 ≠ second.2 ∧
        first.2.map .untimed = second.2.map ReplayEvent.untimed ∧ first.1.world = second.1.world := by
  intro initial unprepared plan
  refine ⟨_, _, rfl, ?_⟩
  intro first second
  have hRuns : first.1.status = .completed ∧ second.1.status = .completed ∧ first.2 ≠ second.2 := by
    decide +kernel
  obtain ⟨hFirst, hSecond, hTimes⟩ := hRuns
  have hPrepared : unprepared.prepare initial = .ok (_, _) := rfl
  have hAgree := completed_agree hPrepared plan (by decide) 1 0.5 _ _ hFirst hSecond
  exact ⟨hFirst, hSecond, hTimes, hAgree.1.1, hAgree.1.2.1⟩
end Timeline

end PlanReplay

import PlanReplay.Proofs.Replay.Trace

/-!
# Order and counters of a run

Each timeline is in a state of the grammar of event traces, and the trace so far leads there. Its counters
are those that one gets by counting the events.

* `ReplayStats.tally` — the counters of a list of events.
* `Timeline.Traced`, `Timeline.calls_traced` — what ties a timeline to its events, in every run.
* `Timeline.events_orderly` — the events of every run are in order, and are counted.
-/

namespace PlanReplay

variable {α : Type}

-- ---------------------------------------------------------------------------
-- Counting events
-- ---------------------------------------------------------------------------

/-- Whether the action at a position of a plan is a wait. -/
def isWaitAt (actions : List (TimedAction α)) (index : Nat) : Bool := actions[index]?.any TimedAction.isWait

theorem isWaitAt_of_get {actions : List (TimedAction α)} {index : Nat} {a : TimedAction α}
    (h : actions[index]? = some a) : isWaitAt actions index = a.isWait := by
  rw [isWaitAt, h, Option.any_some]

namespace ReplayStats

/-- The counters alone. -/
def untimed [Zero α] (s : ReplayStats α) : ReplayStats α := { s with virtualTime := 0 }

/-- The counters after one more event. -/
def count (actions : List (TimedAction α)) (s : ReplayStats α) : ReplayEvent α → ReplayStats α
  | .dispatched _ _ _ => s.countDispatched
  | .applied index _ => s.countApplied (isWaitAt actions index)
  | .rejected _ _ _ => s.countRejected
  | .finished _ _ | .phaseChanged _ | .completed _ _ | .aborted _ => s

/-- The counters of a list of events. -/
def tally [Zero α] (actions : List (TimedAction α)) (events : List (ReplayEvent α)) : ReplayStats α :=
  events.foldl (count actions) .zero

theorem untimed_countApplied [Zero α] (s : ReplayStats α) (isWait : Bool) :
    (s.countApplied isWait).untimed = s.untimed.countApplied isWait := by
  cases isWait <;> rfl

theorem tally_snoc [Zero α] (actions : List (TimedAction α)) (past : List (ReplayEvent α))
    (event : ReplayEvent α) : tally actions (past ++ [event]) = (tally actions past).count actions event := by
  unfold tally
  rw [List.foldl_append, List.foldl_cons, List.foldl_nil]

/-- Changes of phases are not counted. -/
theorem tally_phaseChanges [Zero α] (actions : List (TimedAction α)) (past : List (ReplayEvent α))
    (changes : List PhaseChange) : tally actions (past ++ changes.map .phaseChanged) = tally actions past := by
  induction changes generalizing past with
  | nil => rw [List.map_nil, List.append_nil]
  | cons change rest ih =>
    rw [List.map_cons, List.append_cons, ih, tally_snoc]
    rfl

/-- Each counter is the number of its events, up to the largest value of a counter. -/
theorem tally_eq [Zero α] (actions : List (TimedAction α)) (events : List (ReplayEvent α)) :
    tally actions events =
      ⟨min (dispatches events).length maxUInt32,
        min ((applications events).countP fun index => !isWaitAt actions index) maxUInt32,
        min (rejections events).length maxUInt32,
        min ((applications events).countP (isWaitAt actions)) maxUInt32, 0⟩ := by
  -- counting up and cutting off can be exchanged
  have hUp : ∀ n, countUp (min n maxUInt32) = min (n + 1) maxUInt32 := by
    intro n
    unfold countUp
    omega
  induction events using List.reverseRecOn with
  | nil => rfl
  | append_singleton past event ih =>
    rw [tally_snoc, ih]
    cases event with
    | applied index transition =>
      cases hWait : isWaitAt actions index <;> simp [count, countApplied, hUp, hWait]
    | dispatched | rejected => simp [count, countDispatched, countRejected, hUp]
    | finished | phaseChanged | completed | aborted => simp [count]

end ReplayStats

/-- Every event is counted: the counters are the numbers of the events of their kind, and each action that was
dispatched is counted once more by what became of it. -/
structure Counted (actions : List (TimedAction α)) (events : List (ReplayEvent α)) (s : ReplayStats α) :
    Prop where
  dispatched : s.dispatched = (dispatches events).length
  applied : s.applied = (applications events).countP fun index => !isWaitAt actions index
  waits : s.waits = (applications events).countP (isWaitAt actions)
  rejected : s.rejected = (rejections events).length
  balanced : s.dispatched = s.applied + s.waits + s.rejected

/-- As long as no counter has reached its largest value, nothing is lost. -/
theorem counted_of_tally [Zero α] {actions : List (TimedAction α)} {events : List (ReplayEvent α)}
    {s : ReplayStats α} (hTally : s.untimed = .tally actions events)
    (hAnswered : (applications events ++ rejections events).Perm (dispatches events))
    (hRoom : (dispatches events).length ≤ maxUInt32) : Counted actions events s := by
  rw [ReplayStats.tally_eq, ReplayStats.untimed, ReplayStats.mk.injEq] at hTally
  obtain ⟨hDispatched, hApplied, hRejected, hWaits, -⟩ := hTally
  have hTotal : (applications events).length + (rejections events).length = (dispatches events).length := by
    rw [← List.length_append]
    exact hAnswered.length_eq
  -- the accepted actions are waits or are not
  have hKinds := List.length_eq_countP_add_countP (isWaitAt actions) (l := applications events)
  simp only [Bool.not_eq_true, Bool.decide_eq_false] at hKinds
  refine ⟨?_, ?_, ?_, ?_, ?_⟩ <;> omega

-- ---------------------------------------------------------------------------
-- A timeline and its events
-- ---------------------------------------------------------------------------

namespace Timeline

/-- Whether a timeline has ended with an event that says so. A crash is not told. -/
def hasToldEnd (t : Timeline α) : Bool :=
  match t.status with
  | .completed | .aborted _ => true
  | .idle | .running | .crashed _ => false

/-- The state of the grammar in which a timeline is. -/
def traceState (t : Timeline α) : TraceState :=
  if t.hasToldEnd then .ended t.cursor
  else
    match t.running with
    | some running => .running running.index
    | none => .ready t.cursor

/-- A timeline that has told its end has ended. -/
theorem hasToldEnd_of_live {t : Timeline α} (hLive : t.isComplete = false) : t.hasToldEnd = false := by
  unfold isComplete at hLive
  unfold hasToldEnd
  cases hStatus : t.status with
  | idle | running | crashed => rfl
  | completed | aborted =>
    rw [hStatus] at hLive
    cases hLive

/-- What ties a timeline to the actions of its plan and to the events so far. -/
structure Traced [Zero α] (actions : List (TimedAction α)) (t : Timeline α) (past : List (ReplayEvent α)) :
    Prop where
  trace : Trace actions past t.traceState
  pending : t.pending.map PendingAction.timed = actions.drop t.cursor
  inPlan : t.cursor ≤ actions.length
  running : ∀ running, t.running = some running → t.cursor = running.index + 1
  tally : t.stats.untimed = .tally actions past

theorem traceState_ready {t : Timeline α} (hLive : t.isComplete = false) (hRunning : t.running = none) :
    t.traceState = .ready t.cursor := by
  simp [traceState, hasToldEnd_of_live hLive, hRunning]

theorem traceState_running {t : Timeline α} {running : RunningAction α} (hLive : t.isComplete = false)
    (hRunning : t.running = some running) : t.traceState = .running running.index := by
  simp [traceState, hasToldEnd_of_live hLive, hRunning]

theorem traceState_ended {t : Timeline α} (hEnded : t.hasToldEnd = true) :
    t.traceState = .ended t.cursor := by
  simp [traceState, hEnded]

-- The same, for a trace that leads to a timeline.

theorem trace_ready {t : Timeline α} {actions : List (TimedAction α)} {past : List (ReplayEvent α)}
    (hLive : t.isComplete = false) (hRunning : t.running = none)
    (h : Trace actions past (.ready t.cursor)) : Trace actions past t.traceState := by
  rw [traceState_ready hLive hRunning]
  exact h

theorem trace_running {t : Timeline α} {actions : List (TimedAction α)} {past : List (ReplayEvent α)}
    {running : RunningAction α} (hLive : t.isComplete = false) (hRunning : t.running = some running)
    (h : Trace actions past (.running running.index)) : Trace actions past t.traceState := by
  rw [traceState_running hLive hRunning]
  exact h

theorem trace_ended {t : Timeline α} {actions : List (TimedAction α)} {past : List (ReplayEvent α)}
    (hEnded : t.hasToldEnd = true) (h : Trace actions past (.ended t.cursor)) :
    Trace actions past t.traceState := by
  rw [traceState_ended hEnded]
  exact h

/-- Phases may change before the end. -/
theorem step_phaseChanged {t : Timeline α} {actions : List (TimedAction α)} (hLive : t.isComplete = false)
    (change : PhaseChange) : TraceStep actions t.traceState (.phaseChanged change) t.traceState := by
  cases hRunning : t.running with
  | none =>
    rw [traceState_ready hLive hRunning]
    exact .changedReady
  | some running =>
    rw [traceState_running hLive hRunning]
    exact .changedRunning

namespace Traced

variable {actions : List (TimedAction α)} {t : Timeline α} {past : List (ReplayEvent α)}

/-- The next action to dispatch is the one of the plan at the cursor. -/
theorem next [Zero α] (h : t.Traced actions past) {next : PendingAction α} {later : List (PendingAction α)}
    (hPending : t.pending = next :: later) :
    actions[t.cursor]? = some next.timed ∧ later.map PendingAction.timed = actions.drop (t.cursor + 1) ∧
      t.cursor + 1 ≤ actions.length := by
  have hDrop := h.pending
  rw [hPending, List.map_cons] at hDrop
  have hGet : actions[t.cursor]? = some next.timed := by
    rw [← List.head?_drop, ← hDrop, List.head?_cons]
  refine ⟨hGet, ?_, (List.getElem?_eq_some_iff.mp hGet).1⟩
  rw [← List.drop_drop, ← hDrop, List.drop_succ_cons, List.drop_zero]

/-- When nothing is left to dispatch, every action of the plan has been dispatched. -/
theorem cursor_eq_length [Zero α] (h : t.Traced actions past) (hPending : t.pending = []) :
    t.cursor = actions.length := by
  have hLength := congrArg List.length h.pending
  rw [hPending, List.map_nil, List.length_nil, List.length_drop] at hLength
  have hInPlan := h.inPlan
  omega

/-- The end may come at any time. -/
theorem step_aborted [Zero α] (h : t.Traced actions past) (hLive : t.isComplete = false)
    (reason : AbortReason) : TraceStep actions t.traceState (.aborted reason) (.ended t.cursor) := by
  cases hRunning : t.running with
  | none =>
    rw [traceState_ready hLive hRunning]
    exact .abortedReady
  | some running =>
    rw [traceState_running hLive hRunning, h.running running hRunning]
    exact .abortedRunning

variable [Scalar α]

/-- Every turn keeps a timeline tied to its events. -/
theorem turn (h : t.Traced actions past) (hLive : t.isComplete = false) {budget : α} {turn : Turn α}
    (hTurn : TurnStep t budget turn) : turn.timeline.Traced actions (past ++ turn.events) := by
  have hTrace := h.trace
  cases hTurn with
  | @continued running hRunning hOpen =>
    rw [traceState_running hLive hRunning] at hTrace
    refine ⟨?_, h.pending, h.inPlan, ?_, ?_⟩
    · rw [List.append_nil]
      exact trace_running hLive rfl hTrace
    · rintro running' ⟨⟩
      exact h.running running hRunning
    · rw [List.append_nil]
      exact h.tally
  | @finished running rest clock hRunning hDone hRest hClock =>
    rw [traceState_running hLive hRunning] at hTrace
    -- the end of the transition comes first, and then only phases change
    refine ⟨?_, h.pending, h.inPlan, nofun, ?_⟩
    · rw [List.append_cons]
      refine trace_ready hLive rfl ?_
      dsimp only
      rw [h.running running hRunning]
      exact (hTrace.snoc .finished).phaseChanges (fun _ => .changedReady) _
    · rw [List.append_cons, ReplayStats.tally_phaseChanges, ReplayStats.tally_snoc]
      exact h.tally
  | waited hRunning hPending hWait hShort =>
    rw [traceState_ready hLive hRunning] at hTrace
    refine ⟨?_, h.pending, h.inPlan, h.running, ?_⟩
    · rw [List.append_nil]
      exact trace_ready hLive hRunning hTrace
    · rw [List.append_nil]
      exact h.tally
  | @rejected next later clock rest reason hRunning hPending hDue hAttempt =>
    obtain ⟨hAction, hLater, hInPlan⟩ := h.next hPending
    rw [traceState_ready hLive hRunning] at hTrace
    -- the dispatch is answered at once, and the trace is ready again
    refine ⟨?_, hLater, hInPlan, ?_, ?_⟩
    · rw [List.append_cons]
      refine trace_ready hLive hRunning ?_
      exact (hTrace.snoc (.dispatched hAction)).snoc .rejected
    · intro running hSome
      rw [hRunning] at hSome
      cases hSome
    · rw [List.append_cons, ReplayStats.tally_snoc, ReplayStats.tally_snoc, ← h.tally]
      rfl
  | @crashed next later clock rest crash hRunning hPending hDue hAttempt =>
    rw [traceState_ready hLive hRunning] at hTrace
    have hReady : traceState { t with clock := clock, status := .crashed crash } = .ready t.cursor := by
      simp [traceState, hasToldEnd, hRunning]
    refine ⟨?_, h.pending, h.inPlan, h.running, ?_⟩
    · rw [List.append_nil, hReady]
      exact hTrace
    · rw [List.append_nil]
      exact h.tally
  | @accepted next later clock rest action table world applied hRunning hPending hDue hAttempt =>
    obtain ⟨hAction, hLater, hInPlan⟩ := h.next hPending
    rw [traceState_ready hLive hRunning] at hTrace
    -- the dispatch is answered at once, and the transition runs
    refine ⟨?_, hLater, hInPlan, ?_, ?_⟩
    · rw [List.append_cons, List.append_cons]
      refine trace_running hLive rfl ?_
      exact ((hTrace.snoc (.dispatched hAction)).snoc .applied).phaseChanges (fun _ => .changedRunning) _
    · rintro running ⟨⟩
      rfl
    · rw [List.append_cons, List.append_cons, ReplayStats.tally_phaseChanges, ReplayStats.tally_snoc,
        ReplayStats.tally_snoc, ← h.tally, ReplayStats.untimed_countApplied]
      dsimp only [ReplayStats.count]
      rw [isWaitAt_of_get hAction]
      rfl
  | completed hRunning hPending =>
    have hAll := h.cursor_eq_length hPending
    -- the trace is ready behind the last action of the plan
    rw [traceState_ready hLive hRunning, hAll] at hTrace
    refine ⟨?_, h.pending, h.inPlan, h.running, ?_⟩
    · rw [← List.append_assoc]
      refine trace_ended rfl ?_
      dsimp only
      rw [hAll]
      exact (hTrace.phaseChanges (fun _ => .changedReady) _).snoc .completed
    · rw [← List.append_assoc, ReplayStats.tally_snoc, ReplayStats.tally_phaseChanges]
      exact h.tally

/-- The virtual time that a step notes is no counter. -/
theorem noted (h : t.Traced actions past) : t.noted.Traced actions past :=
  ⟨h.trace, h.pending, h.inPlan, h.running, h.tally⟩

/-- What every turn keeps, a step keeps. -/
theorem step (h : t.Traced actions past) (time : α) :
    (t.step time).1.Traced actions (past ++ (t.step time).2) := by
  by_cases hRunning : t.status = .running
  · have hLive : t.isComplete = false := isComplete_eq hRunning
    rw [step_of_running hRunning]
    refine noted ?_
    -- over the turns of the step: the timeline is tied to its events, and has not ended
    refine turns_induction (P := fun t _ past => t.Traced actions past ∧ t.isComplete = false)
      (Q := fun t past => t.Traced actions past) ?_ ?_ ⟨h, hLive⟩
    · rintro t next budget rest past events ⟨hTraced, hOpen⟩ hTurn
      exact ⟨hTraced.turn hOpen hTurn, (isComplete_eq hTurn.status).trans hOpen⟩
    · rintro t next budget past events ⟨hTraced, hOpen⟩ hTurn
      exact hTraced.turn hOpen hTurn
  · rw [step_of_not_running hRunning, List.append_nil]
    exact h

omit [Scalar α] in
theorem start [Zero α] (h : t.Traced actions past) : t.start.1.Traced actions (past ++ t.start.2) := by
  unfold Timeline.start
  split
  · rename_i hIdle
    have hLive : t.isComplete = false := isComplete_eq hIdle
    split
    · -- without actions the start is an end
      refine ⟨?_, h.pending, h.inPlan, h.running, ?_⟩
      · refine trace_ended rfl ?_
        exact h.trace.snoc (h.step_aborted hLive .noPlan)
      · rw [ReplayStats.tally_snoc]
        exact h.tally
    · rw [List.append_nil]
      refine ⟨?_, h.pending, h.inPlan, h.running, h.tally⟩
      have hTrace := h.trace
      cases hRunning : t.running with
      | none =>
        rw [traceState_ready hLive hRunning] at hTrace
        exact trace_ready rfl rfl hTrace
      | some running =>
        rw [traceState_running hLive hRunning] at hTrace
        exact trace_running rfl rfl hTrace
  · rw [List.append_nil]
    exact h

omit [Scalar α] in
theorem cancel [Zero α] (h : t.Traced actions past) : t.cancel.1.Traced actions (past ++ t.cancel.2) := by
  unfold Timeline.cancel
  cases hEnded : t.isComplete with
  | true =>
    rw [if_pos rfl, List.append_nil]
    exact h
  | false =>
    rw [if_neg Bool.false_ne_true]
    -- phases change before the last event
    refine ⟨?_, h.pending, h.inPlan, nofun, ?_⟩
    · rw [← List.append_assoc]
      refine trace_ended rfl ?_
      exact (h.trace.phaseChanges (step_phaseChanged hEnded) _).snoc (h.step_aborted hEnded .cancelled)
    · rw [← List.append_assoc, ReplayStats.tally_snoc, ReplayStats.tally_phaseChanges]
      exact h.tally

theorem call (h : t.Traced actions past) (call : HostCall α) :
    (t.call call).1.Traced actions (past ++ (t.call call).2) := by
  cases call with
  | start => exact h.start
  | step time => exact h.step time
  | cancel => exact h.cancel

end Traced

variable [Scalar α]

-- ---------------------------------------------------------------------------
-- Every run
-- ---------------------------------------------------------------------------

/-- A timeline that has not been started is tied to no events. -/
theorem ofPlan_traced (speed : α) (table : ActionTable α) (world : World α) (plan : Plan α) :
    (ofPlan speed table world plan).Traced plan.actions [] := by
  refine ⟨.nil, ?_, Nat.zero_le _, nofun, rfl⟩
  unfold ofPlan
  rw [List.map_map, List.drop_zero]
  exact List.map_id _

/-- Every run is tied to its events. -/
theorem calls_traced (speed : α) (table : ActionTable α) (world : World α) (plan : Plan α)
    (calls : List (HostCall α)) :
    ((ofPlan speed table world plan).calls calls).1.Traced plan.actions
      ((ofPlan speed table world plan).calls calls).2 :=
  calls_induction (Q := fun t past => t.Traced plan.actions past) (fun call _ _ _ h => h.call call)
    (ofPlan_traced speed table world plan)

/--
**Grammar of events.** However the host mixes its calls: actions are dispatched in the order of the plan, each
dispatch is answered at once, only accepted actions have transitions and these are finished before the next
dispatch, a replay is complete only when all is done, and nothing happens after its end. As long as no counter
has reached its largest value, each is the number of its events, and every dispatched action is counted once as
applied, as a wait or as rejected.
-/
theorem events_orderly (speed : α) (table : ActionTable α) (world : World α) (plan : Plan α)
    (calls : List (HostCall α)) :
    let run := (ofPlan speed table world plan).calls calls
    Orderly plan.actions run.2 ∧
      ((dispatches run.2).length ≤ maxUInt32 → Counted plan.actions run.2 run.1.stats) := by
  intro run
  have hTraced : run.1.Traced plan.actions run.2 := calls_traced speed table world plan calls
  have hOrderly : Orderly plan.actions run.2 := by
    refine hTraced.trace.orderly ?_
    -- no timeline is between a dispatch and its answer
    intro index hAnnounced
    unfold traceState at hAnnounced
    split at hAnnounced
    · cases hAnnounced
    · split at hAnnounced <;> cases hAnnounced
  exact ⟨hOrderly, counted_of_tally hTraced.tally hOrderly.answeredOnce⟩

/-- A robot charges, an action without a meaning is rejected, and the replay is cancelled before the last
action. -/
theorem events_orderly_until_cancel :
    let plan : Plan Float :=
      ⟨.temporal, [⟨0, 1, "startcharge", [⟨"r"⟩], 1⟩, ⟨0, 0, "fly", [], 2⟩, .wait 5 1 3], []⟩
    let world : World Float := World.empty.declare ⟨"r"⟩ .robot
    let run := (ofPlan 1 (.robot (.ofConfig .default)) world plan).calls
      [.start, .step 0.5, .step 3, .cancel, .step 9]
    applications run.2 = [0] ∧ rejections run.2 = [1] ∧ completions run.2 = [0] ∧
      run.1.status = .aborted .cancelled ∧ Orderly plan.actions run.2 ∧
        Counted plan.actions run.2 run.1.stats := by
  intro plan world run
  have hRun : (dispatches run.2).length ≤ maxUInt32 ∧ applications run.2 = [0] ∧ rejections run.2 = [1] ∧
      completions run.2 = [0] ∧ run.1.status = .aborted .cancelled := by
    decide +kernel
  obtain ⟨hRoom, hApplied, hRejected, hFinished, hStatus⟩ := hRun
  have hOrderly := events_orderly 1 (.robot (.ofConfig .default)) world plan
    [.start, .step 0.5, .step 3, .cancel, .step 9]
  exact ⟨hApplied, hRejected, hFinished, hStatus, hOrderly.1, hOrderly.2 hRoom⟩

end Timeline

end PlanReplay

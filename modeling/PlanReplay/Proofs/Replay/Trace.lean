import Mathlib.Data.List.Induction
import Mathlib.Data.List.Nodup
import Mathlib.Data.List.Perm.Basic
import PlanReplay.Proofs.Replay.Turn

/-!
# The grammar of event traces

The events of a replay follow a small grammar, an automaton with four kinds of states, `TraceState`, whose
steps are the events, `TraceStep`. What the grammar says about the order of events is read off it here.

* `Trace.facts` — what a trace that leads to a state has in it, by induction on the trace.
* `Orderly`, `Trace.orderly` — the order of events, as statements about every place in a trace.
-/

namespace PlanReplay

variable {α : Type}

-- ---------------------------------------------------------------------------
-- Reading a list of events
-- ---------------------------------------------------------------------------

namespace ReplayEvent

@[simp] def dispatchedIndex? : ReplayEvent α → Option Nat
  | dispatched index _ _ => some index
  | _ => none

@[simp] def appliedIndex? : ReplayEvent α → Option Nat
  | applied index _ => some index
  | _ => none

@[simp] def rejectedIndex? : ReplayEvent α → Option Nat
  | rejected index _ _ => some index
  | _ => none

@[simp] def finishedIndex? : ReplayEvent α → Option Nat
  | finished index _ => some index
  | _ => none

/-- Whether a replay has ended with an event. -/
@[simp] def isEnding : ReplayEvent α → Bool
  | completed _ _ | aborted _ => true
  | _ => false

end ReplayEvent

/-- The positions of the actions that were dispatched, in the order of the events. -/
def dispatches (events : List (ReplayEvent α)) : List Nat := events.filterMap ReplayEvent.dispatchedIndex?

/-- The positions of the actions that were accepted. -/
def applications (events : List (ReplayEvent α)) : List Nat := events.filterMap ReplayEvent.appliedIndex?

/-- The positions of the actions that were refused. -/
def rejections (events : List (ReplayEvent α)) : List Nat := events.filterMap ReplayEvent.rejectedIndex?

/-- The positions of the actions whose transitions were finished. -/
def completions (events : List (ReplayEvent α)) : List Nat := events.filterMap ReplayEvent.finishedIndex?

theorem filterMap_snoc {β : Type} (read : ReplayEvent α → Option β) (past : List (ReplayEvent α))
    (event : ReplayEvent α) :
    (past ++ [event]).filterMap read = past.filterMap read ++ (read event).toList := by
  rw [List.filterMap_append]
  cases h : read event with
  | none => rw [List.filterMap_cons_none h, List.filterMap_nil, Option.toList_none]
  | some index => rw [List.filterMap_cons_some h, List.filterMap_nil, Option.toList_some]

@[simp] theorem dispatches_snoc (past : List (ReplayEvent α)) (event : ReplayEvent α) :
    dispatches (past ++ [event]) = dispatches past ++ event.dispatchedIndex?.toList :=
  filterMap_snoc _ past event

@[simp] theorem applications_snoc (past : List (ReplayEvent α)) (event : ReplayEvent α) :
    applications (past ++ [event]) = applications past ++ event.appliedIndex?.toList :=
  filterMap_snoc _ past event

@[simp] theorem rejections_snoc (past : List (ReplayEvent α)) (event : ReplayEvent α) :
    rejections (past ++ [event]) = rejections past ++ event.rejectedIndex?.toList :=
  filterMap_snoc _ past event

@[simp] theorem completions_snoc (past : List (ReplayEvent α)) (event : ReplayEvent α) :
    completions (past ++ [event]) = completions past ++ event.finishedIndex?.toList :=
  filterMap_snoc _ past event

-- ---------------------------------------------------------------------------
-- The grammar
-- ---------------------------------------------------------------------------

/-- Where a trace stands, with the number of actions that came before. -/
inductive TraceState where
  /-- No transition runs. -/
  | ready (tried : Nat)
  /-- An action was dispatched, and is neither accepted nor refused yet. -/
  | announced (index : Nat)
  /-- The transition of an action runs. -/
  | running (index : Nat)
  /-- The replay has ended. -/
  | ended (tried : Nat)

namespace TraceState

/-- The number of actions that were dispatched. -/
@[simp] def tried : TraceState → Nat
  | ready tried | ended tried => tried
  | announced index | running index => index + 1

/-- The number of actions that were accepted or refused. -/
@[simp] def answered : TraceState → Nat
  | ready tried | ended tried => tried
  | announced index => index
  | running index => index + 1

end TraceState

/-- The events that can come next, and where they lead. -/
inductive TraceStep (actions : List (TimedAction α)) : TraceState → ReplayEvent α → TraceState → Prop where
  | dispatched {n : Nat} {a : TimedAction α} {clock : α} (hAction : actions[n]? = some a) :
      TraceStep actions (.ready n) (.dispatched n a clock) (.announced n)
  | applied {n : Nat} {transition : Transition α} :
      TraceStep actions (.announced n) (.applied n transition) (.running n)
  | rejected {n : Nat} {a : TimedAction α} {reason : Rejection α} :
      TraceStep actions (.announced n) (.rejected n a reason) (.ready (n + 1))
  | finished {n : Nat} {clock : α} : TraceStep actions (.running n) (.finished n clock) (.ready (n + 1))
  | changedReady {n : Nat} {change : PhaseChange} :
      TraceStep actions (.ready n) (.phaseChanged change) (.ready n)
  | changedRunning {n : Nat} {change : PhaseChange} :
      TraceStep actions (.running n) (.phaseChanged change) (.running n)
  | completed {clock : α} {stats : ReplayStats α} :
      TraceStep actions (.ready actions.length) (.completed clock stats) (.ended actions.length)
  | abortedReady {n : Nat} {reason : AbortReason} : TraceStep actions (.ready n) (.aborted reason) (.ended n)
  | abortedRunning {n : Nat} {reason : AbortReason} :
      TraceStep actions (.running n) (.aborted reason) (.ended (n + 1))

/-- The traces of the grammar, and where they lead. -/
inductive Trace (actions : List (TimedAction α)) : List (ReplayEvent α) → TraceState → Prop where
  | nil : Trace actions [] (.ready 0)
  | snoc {past : List (ReplayEvent α)} {s next : TraceState} {event : ReplayEvent α}
      (hPast : Trace actions past s) (hEvent : TraceStep actions s event next) :
      Trace actions (past ++ [event]) next

namespace Trace

variable {actions : List (TimedAction α)}

/-- The last event of a trace is a step from where the rest leads. -/
theorem last {past : List (ReplayEvent α)} {event : ReplayEvent α} {s : TraceState}
    (h : Trace actions (past ++ [event]) s) :
    ∃ before, Trace actions past before ∧ TraceStep actions before event s := by
  generalize hList : past ++ [event] = list at h
  cases h with
  | nil => simp at hList
  | snoc hPast hEvent =>
    obtain ⟨rfl, hSame⟩ := List.append_inj' hList rfl
    cases hSame
    exact ⟨_, hPast, hEvent⟩

/-- Every beginning of a trace is a trace. -/
theorem take {after : List (ReplayEvent α)} :
    ∀ {before : List (ReplayEvent α)} {s : TraceState}, Trace actions (before ++ after) s →
      ∃ middle, Trace actions before middle := by
  induction after using List.reverseRecOn with
  | nil =>
    intro before s h
    rw [List.append_nil] at h
    exact ⟨s, h⟩
  | append_singleton after event ih =>
    intro before s h
    rw [← List.append_assoc] at h
    obtain ⟨middle, hRest, -⟩ := h.last
    exact ih hRest

/-- Each event of a trace is a step from where the events before it lead. -/
theorem step_at {before after : List (ReplayEvent α)} {event : ReplayEvent α} {s : TraceState}
    (h : Trace actions (before ++ event :: after) s) :
    ∃ first second, Trace actions before first ∧ TraceStep actions first event second ∧
      Trace actions (before ++ [event]) second := by
  rw [List.append_cons] at h
  obtain ⟨second, hBefore⟩ := h.take
  obtain ⟨first, hFirst, hEvent⟩ := hBefore.last
  exact ⟨first, second, hFirst, hEvent, hBefore⟩

/-- A trace goes on with changes of phases where it stands still. -/
theorem phaseChanges {past : List (ReplayEvent α)} {s : TraceState} (h : Trace actions past s)
    (hStep : ∀ change, TraceStep actions s (.phaseChanged change) s) (changes : List PhaseChange) :
    Trace actions (past ++ changes.map .phaseChanged) s := by
  induction changes generalizing past with
  | nil =>
    rw [List.map_nil, List.append_nil]
    exact h
  | cons change rest ih =>
    rw [List.map_cons, List.append_cons]
    exact ih (h.snoc (hStep change))

/-- Transitions are finished in the order in which they began, all but the one that runs; the end drops it. -/
def Balanced (past : List (ReplayEvent α)) : TraceState → Prop
  | .ready _ | .announced _ => completions past = applications past
  | .running index => applications past = completions past ++ [index]
  | .ended _ => completions past <+: applications past

/-- What a trace that leads to a state has in it. -/
structure Facts (past : List (ReplayEvent α)) (s : TraceState) : Prop where
  dispatched : dispatches past = List.range s.tried
  /-- Each action that is answered is accepted or refused, once. -/
  answered : (applications past ++ rejections past).Perm (List.range s.answered)
  finished : Balanced past s
  live : (∀ n, s ≠ .ended n) → ∀ event ∈ past, event.isEnding = false

theorem facts {past : List (ReplayEvent α)} {s : TraceState} (h : Trace actions past s) : Facts past s := by
  induction h with
  | nil => exact ⟨rfl, .refl _, rfl, by simp⟩
  | @snoc past s next event _ hEvent ih =>
    obtain ⟨hDispatched, hAnswered, hFinished, hLive⟩ := ih
    cases hEvent with
    | dispatched _ =>
      -- the position is the next one, and is not answered yet
      refine ⟨?_, ?_, ?_, ?_⟩
      · rw [dispatches_snoc, hDispatched]
        exact List.range_succ.symm
      · simpa using hAnswered
      · simpa [Balanced] using hFinished
      · simpa [or_imp, forall_and] using hLive
    | @applied n transition =>
      refine ⟨?_, ?_, ?_, ?_⟩
      · simpa using hDispatched
      · -- the position stands between the accepted and the rejected ones
        have hMoved : (applications past ++ ([n] ++ rejections past)).Perm (List.range n ++ [n]) := by
          refine (List.perm_append_comm.append_left _).trans ?_
          rw [← List.append_assoc]
          exact hAnswered.append_right _
        rw [TraceState.answered, List.range_succ]
        simpa using hMoved
      · simpa [Balanced] using hFinished.symm
      · simpa [or_imp, forall_and] using hLive
    | @rejected n a reason =>
      -- the position stands behind the rejected ones, and nothing is left to finish
      refine ⟨?_, ?_, ?_, ?_⟩
      · simpa using hDispatched
      · have hMoved : (applications past ++ (rejections past ++ [n])).Perm (List.range n ++ [n]) := by
          rw [← List.append_assoc]
          exact hAnswered.append_right _
        rw [TraceState.answered, List.range_succ]
        simpa using hMoved
      · simpa [Balanced] using hFinished
      · simpa [or_imp, forall_and] using hLive
    | finished =>
      refine ⟨?_, ?_, ?_, ?_⟩
      · simpa using hDispatched
      · simpa using hAnswered
      · simpa [Balanced] using hFinished.symm
      · simpa [or_imp, forall_and] using hLive
    | changedReady | changedRunning =>
      refine ⟨?_, ?_, ?_, ?_⟩
      · simpa using hDispatched
      · simpa using hAnswered
      · simpa [Balanced] using hFinished
      · simpa [or_imp, forall_and] using hLive
    | completed | abortedReady | abortedRunning =>
      -- an end drops the transition that runs, if there is one
      refine ⟨?_, ?_, ?_, ?_⟩
      · simpa using hDispatched
      · simpa using hAnswered
      · unfold Balanced at hFinished ⊢
        simp [hFinished]
      · intro hOpen
        exact absurd rfl (hOpen _)

end Trace

-- ---------------------------------------------------------------------------
-- The order of events
-- ---------------------------------------------------------------------------

/-- The order of the events of a replay, as statements about every place in the trace. -/
structure Orderly (actions : List (TimedAction α)) (events : List (ReplayEvent α)) : Prop where
  /-- Actions are dispatched in the order of the plan, from the first one on, each once. -/
  inOrder : dispatches events = List.range (dispatches events).length
  ofPlan : ∀ before after index a clock, events = before ++ .dispatched index a clock :: after →
    actions[index]? = some a
  /-- The event after a dispatch says whether the action is accepted or refused. -/
  answered : ∀ before after index a clock, events = before ++ .dispatched index a clock :: after →
    ∃ answer rest, after = answer :: rest ∧
      (answer.appliedIndex? = some index ∨ answer.rejectedIndex? = some index)
  /-- No other event says so. -/
  answeredOnce : (applications events ++ rejections events).Perm (dispatches events)
  finishedOnce : (completions events).Nodup
  /-- Only the transition of an accepted action is finished. -/
  finishedAfter : ∀ before after index clock, events = before ++ .finished index clock :: after →
    index ∈ applications before ∧ index ∉ rejections events
  /-- When an action is dispatched, the transitions of all actions before it are finished. -/
  inSequence : ∀ before after index a clock, events = before ++ .dispatched index a clock :: after →
    ∀ earlier ∈ applications before, earlier ∈ completions before
  /-- A replay is complete when every action was dispatched and every transition is finished. -/
  completed : ∀ before after clock stats, events = before ++ .completed clock stats :: after →
    dispatches before = List.range actions.length ∧ ∀ index ∈ applications before, index ∈ completions before
  /-- Nothing happens after the end, and there is one end at most. -/
  ends : ∀ before after event, events = before ++ event :: after → event.isEnding = true →
    after = [] ∧ ∀ earlier ∈ before, earlier.isEnding = false

namespace Trace

variable {actions : List (TimedAction α)}

theorem nodup_answers {past : List (ReplayEvent α)} {s : TraceState} (h : Facts past s) :
    (applications past ++ rejections past).Nodup :=
  h.answered.nodup_iff.mpr List.nodup_range

theorem completions_isPrefix {past : List (ReplayEvent α)} {s : TraceState} (h : Facts past s) :
    completions past <+: applications past := by
  have hFinished := h.finished
  cases s with
  | ready n | announced n =>
    have hSame : completions past = applications past := hFinished
    exact hSame ▸ List.prefix_rfl
  | running index =>
    rw [hFinished]
    exact List.prefix_append _ _
  | ended n => exact hFinished

/-- A trace that does not stop between a dispatch and its answer is in order. -/
theorem orderly {events : List (ReplayEvent α)} {s : TraceState} (h : Trace actions events s)
    (hWhole : ∀ index, s ≠ .announced index) : Orderly actions events := by
  have hFacts := h.facts
  have hNodup := nodup_answers hFacts
  refine ⟨?_, ?_, ?_, ?_, ?_, ?_, ?_, ?_, ?_⟩
  · rw [hFacts.dispatched, List.length_range]
  · rintro before after index a clock rfl
    obtain ⟨first, second, -, hStep, -⟩ := h.step_at
    cases hStep
    assumption
  · rintro before after index a clock rfl
    cases after with
    | nil =>
      -- a trace that ends with a dispatch is not whole
      obtain ⟨first, -, hStep⟩ := h.last
      cases hStep
      exact absurd rfl (hWhole index)
    | cons answer rest =>
      refine ⟨answer, rest, rfl, ?_⟩
      rw [List.append_cons] at h
      obtain ⟨first, second, hFirst, hAnswer, -⟩ := h.step_at
      -- after a dispatch the trace is announced, and only an answer can follow
      obtain ⟨_, _, hStep⟩ := hFirst.last
      cases hStep
      cases hAnswer with
      | applied => exact Or.inl rfl
      | rejected => exact Or.inr rfl
  · -- only an announced action is dispatched and not answered
    have hSame : s.answered = s.tried := by
      cases s with
      | announced index => exact absurd rfl (hWhole index)
      | ready | running | ended => rfl
    rw [hFacts.dispatched, ← hSame]
    exact hFacts.answered
  · exact (completions_isPrefix hFacts).sublist.nodup (List.nodup_append.mp hNodup).1
  · rintro before after index clock rfl
    obtain ⟨first, second, hFirst, hStep, -⟩ := h.step_at
    cases hStep
    have hMem : index ∈ applications before := by
      have hRunning : applications before = completions before ++ [index] := hFirst.facts.finished
      rw [hRunning]
      simp
    refine ⟨hMem, ?_⟩
    -- a position that is accepted and rejected would be answered twice
    intro hRejected
    have hAll : index ∈ applications (before ++ .finished index clock :: after) := by
      rw [applications, List.filterMap_append]
      exact List.mem_append_left _ hMem
    exact (List.nodup_append.mp hNodup).2.2 index hAll index hRejected rfl
  · rintro before after index a clock rfl earlier hEarlier
    obtain ⟨first, second, hFirst, hStep, -⟩ := h.step_at
    cases hStep
    -- a dispatch comes when the trace is ready, and then the two are the same
    have hReady : completions before = applications before := hFirst.facts.finished
    rw [hReady]
    exact hEarlier
  · rintro before after clock stats rfl
    obtain ⟨first, second, hFirst, hStep, -⟩ := h.step_at
    cases hStep
    have hReady : completions before = applications before := hFirst.facts.finished
    refine ⟨hFirst.facts.dispatched, ?_⟩
    intro index hIndex
    rw [hReady]
    exact hIndex
  · rintro before after event rfl hEnding
    obtain ⟨first, second, hFirst, hStep, -⟩ := h.step_at
    constructor
    · cases after with
      | nil => rfl
      | cons next rest =>
        rw [List.append_cons] at h
        obtain ⟨third, fourth, hThird, hNext, -⟩ := h.step_at
        -- an ending event leads to a state in which nothing can come next
        obtain ⟨_, _, hLast⟩ := hThird.last
        cases hLast with
        | completed | abortedReady | abortedRunning => cases hNext
        | dispatched | applied | rejected | finished | changedReady | changedRunning => simp at hEnding
    · refine hFirst.facts.live ?_
      intro n hEnded
      subst hEnded
      cases hStep

end Trace

end PlanReplay

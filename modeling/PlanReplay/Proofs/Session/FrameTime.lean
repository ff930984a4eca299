import Mathlib.Algebra.GroupWithZero.Nat
import PlanReplay.Proofs.Host.Interleaving
import PlanReplay.Session.HostLoop

/-!
# The time of the host loop

In real time the loop neither loses nor invents time. A frame splits the time that it holds into ticks, a rest that is
held for the next frame, and a backlog that is dropped; so after any frames, the time that counted for them is the time of
the ticks, what was dropped and what is held. Each of these ticks is simulated: the run has been stepped so many times. Only
the frame in which the run becomes complete stops with the tick that completes it, and leaves the rest of its ticks out.

* `TickPlan.Splits`, `planTicks_splits` — the plan of a frame, by division.
* `Account.ofFrames`, `Account.Balanced`, `Account.balanced_ofFrames` — the account of a sequence of frames.
* `Run.Simulates` — how often a run has been stepped, and `Run.Simulates.count_unique`: there is one answer.
* `HostLoop.ticks_end` — what a frame simulates.
* `HostLoop.Paced`, `HostLoop.Ends`, `HostLoop.runPaced_obeys` — what the frames of a loop simulate.
* `time_kept` — all of it, and `not_all_simulated`: a frame of five ticks that simulates one.
-/

namespace PlanReplay

-- ---------------------------------------------------------------------------
-- One frame
-- ---------------------------------------------------------------------------

/-- Ticks are taken as long as they fit, up to the limit. -/
theorem takeTicks_eq {tick : Nat} (hTick : 0 < tick) (limit taken time : Nat) :
    takeTicks tick limit taken time =
      (taken + min limit (time / tick), time - min limit (time / tick) * tick) := by
  induction limit generalizing taken time with
  | zero => simp [takeTicks]
  | succ limit ih =>
    unfold takeTicks
    split
    · rename_i hFits
      have hQuotient : time / tick = (time - tick) / tick + 1 := Nat.div_eq_sub_div hTick hFits
      rw [ih, hQuotient, Nat.add_min_add_right, Nat.add_mul, Nat.one_mul, Nat.sub_sub, Nat.add_comm tick]
      congr 1
      omega
    · rename_i hShort
      rw [Nat.div_eq_of_lt (Nat.not_le.mp hShort), Nat.min_zero, Nat.zero_mul]
      rfl

/-- How a plan splits a time: as many ticks as fit up to the limit, a rest below a tick, and a backlog only at the
limit. -/
structure TickPlan.Splits (plan : TickPlan) (time tick limit : Nat) : Prop where
  whole : time = plan.ticks * tick + plan.rest + plan.dropped
  ticks_eq : plan.ticks = min limit (time / tick)
  rest_lt : plan.rest < tick
  capped : 0 < plan.dropped → plan.ticks = limit ∧ plan.rest = 0

theorem planTicks_splits {tick : Nat} (hTick : 0 < tick) (time limit : Nat) :
    (planTicks time tick limit).Splits time tick limit := by
  have hFits : min limit (time / tick) * tick ≤ time :=
    (Nat.mul_le_mul_right tick (Nat.min_le_right _ _)).trans (Nat.div_mul_le_self time tick)
  unfold planTicks
  rw [takeTicks_eq hTick, Nat.zero_add]
  dsimp only
  split
  · rename_i hBacklog
    refine ⟨by dsimp only; omega, rfl, hTick, fun _ => ⟨?_, rfl⟩⟩
    -- without the limit less than a tick would be left
    refine Nat.min_eq_left (Nat.le_of_not_lt fun hLess => ?_)
    rw [Nat.min_eq_right hLess.le] at hBacklog
    have hRest := Nat.mod_lt time hTick
    have hSplit := Nat.div_add_mod' time tick
    omega
  · exact ⟨by dsimp only; omega, rfl, by dsimp only; omega, nofun⟩

-- ---------------------------------------------------------------------------
-- Frames one after the other
-- ---------------------------------------------------------------------------

/-- What has become of the time of some frames: the ticks that were planned, the time that was dropped, and the time that
is held. -/
structure Account where
  planned : Nat
  dropped : Nat
  held : Nat
deriving DecidableEq

namespace Account

/-- The account after one more frame. -/
def frame (tick longest limit : Nat) (a : Account) (delta : Nat) : Account :=
  let plan := planTicks (a.held + clampFrame delta longest) tick limit
  ⟨a.planned + plan.ticks, a.dropped + plan.dropped, plan.rest⟩

def ofFrames (tick longest limit : Nat) (frames : List Nat) : Account :=
  frames.foldl (frame tick longest limit) ⟨0, 0, 0⟩

/-- The time that was given is that of the ticks, what was dropped and what is held, which is below a tick. -/
structure Balanced (tick given : Nat) (a : Account) : Prop where
  whole : given = a.planned * tick + a.dropped + a.held
  held_lt : a.held < tick

variable {tick longest limit given : Nat} {a : Account}

theorem Balanced.frame (h : a.Balanced tick given) (delta : Nat) :
    (a.frame tick longest limit delta).Balanced tick (given + clampFrame delta longest) := by
  have hSplits := planTicks_splits (Nat.zero_lt_of_lt h.held_lt) (a.held + clampFrame delta longest) limit
  have hWhole := h.whole
  have hFrame := hSplits.whole
  refine ⟨?_, hSplits.rest_lt⟩
  unfold Account.frame
  dsimp only
  rw [Nat.add_mul]
  omega

theorem ofFrames_concat (frames : List Nat) (delta : Nat) : ofFrames tick longest limit (frames ++ [delta]) =
    (ofFrames tick longest limit frames).frame tick longest limit delta :=
  List.foldl_append

/-- **The account of frames is balanced.** -/
theorem balanced_ofFrames (hTick : 0 < tick) (longest limit : Nat) (frames : List Nat) :
    (ofFrames tick longest limit frames).Balanced tick (frames.map (clampFrame · longest)).sum := by
  induction frames using List.reverseRecOn with
  | nil => exact ⟨by simp [ofFrames], hTick⟩
  | append_singleton frames delta ih =>
    rw [ofFrames_concat, List.map_append, List.sum_append]
    exact ih.frame delta

end Account

-- ---------------------------------------------------------------------------
-- What is simulated
-- ---------------------------------------------------------------------------

/-- Stepped by `seconds` so many times, each time before it was complete, a run leads to another one. -/
inductive Run.Simulates (seconds : Float) (first : Run) : Nat → Run → Prop where
  | nothing : Simulates seconds first 0 first
  | tick {count : Nat} {before after : Run} {events : List (ReplayEvent Float)}
      (hBefore : Simulates seconds first count before) (hOpen : before.isComplete = false)
      (hStep : before.step seconds = .ok (after, events)) : Simulates seconds first (count + 1) after

namespace Run.Simulates

variable {seconds : Float} {first last last' : Run} {count count' : Nat}

/-- So many steps lead to one run. -/
theorem last_unique (h : first.Simulates seconds count last) (h' : first.Simulates seconds count last') :
    last' = last := by
  induction h generalizing last' with
  | nothing =>
    cases h'
    rfl
  | tick hBefore hOpen hStep ih =>
    cases h' with
    | tick hBefore' hOpen' hStep' =>
      obtain rfl := ih hBefore'
      cases hStep.symm.trans hStep'
      rfl

/-- There is no step from a run that is complete. -/
theorem le_of_complete (h : first.Simulates seconds count last) (hDone : last.isComplete = true)
    (h' : first.Simulates seconds count' last') : count' ≤ count := by
  induction h' with
  | nothing => exact Nat.zero_le count
  | @tick earlier before after events hBefore hOpen hStep ih =>
    refine Nat.lt_of_le_of_ne ih ?_
    rintro rfl
    obtain rfl := h.last_unique hBefore
    cases hDone.symm.trans hOpen

/-- How often a run has been stepped when it is complete is one number. -/
theorem count_unique (h : first.Simulates seconds count last) (hDone : last.isComplete = true)
    (h' : first.Simulates seconds count' last') (hDone' : last'.isComplete = true) : count' = count :=
  Nat.le_antisymm (h.le_of_complete hDone h') (h'.le_of_complete hDone' h)

end Run.Simulates

namespace HostLoop

/-- What has become of a run after a frame of `count` ticks. All of them have been simulated, and the run goes on; or the
run is complete, and no tick has been simulated since; or the program has ended in a tick. -/
inductive TicksEnd (first : Run) (simulated count : Nat) : Except Crash HostLoop → Prop where
  | goesOn {after : HostLoop} (hAll : first.Simulates (secondsOfNanos tickNanos) (simulated + count) after.run)
      (hOpen : after.run.isComplete = false) : TicksEnd first simulated count (.ok after)
  | complete {ran : Nat} {after : HostLoop} (hPos : 0 < ran) (hRan : ran ≤ count)
      (hSome : first.Simulates (secondsOfNanos tickNanos) (simulated + ran) after.run)
      (hDone : after.run.isComplete = true) : TicksEnd first simulated count (.ok after)
  | crashed {ran : Nat} {last : Run} {crash : Crash} (hRan : ran < count)
      (hSome : first.Simulates (secondsOfNanos tickNanos) (simulated + ran) last)
      (hCrash : last.step (secondsOfNanos tickNanos) = .error crash) : TicksEnd first simulated count (.error crash)

/-- A tick is a step of the run. -/
theorem step_of_tick {l after : HostLoop} {lines : List String} (h : l.tick = .ok (after, lines)) :
    ∃ events, l.run.step (secondsOfNanos tickNanos) = .ok (after.run, events) := by
  unfold tick at h
  split at h
  · cases h
  · rename_i hStep
    cases h
    exact ⟨_, hStep⟩

theorem step_of_tick_crash {l : HostLoop} {crash : Crash} (h : l.tick = .error crash) :
    l.run.step (secondsOfNanos tickNanos) = .error crash := by
  unfold tick at h
  split at h
  · rename_i hStep
    cases h
    exact hStep
  · cases h

/-- **What a frame simulates.** By induction on its ticks, of which one more has been simulated each time. -/
theorem ticks_end {first : Run} {simulated : Nat} {l : HostLoop} (count : Nat)
    (h : first.Simulates (secondsOfNanos tickNanos) simulated l.run) (hOpen : l.run.isComplete = false) :
    TicksEnd first simulated count (ticks count l).2 := by
  induction count generalizing simulated l with
  | zero => exact .goesOn h hOpen
  | succ count ih =>
    unfold ticks
    split
    · rename_i hCrash
      exact .crashed (Nat.succ_pos count) h (step_of_tick_crash hCrash)
    · rename_i after lines hTick
      obtain ⟨events, hStep⟩ := step_of_tick hTick
      have hNext : first.Simulates (secondsOfNanos tickNanos) (simulated + 1) after.run := h.tick hOpen hStep
      split
      · rename_i hDone
        exact .complete Nat.one_pos (Nat.le_add_left 1 count) hNext hDone
      · rename_i hStill
        have hLater := ih hNext (Bool.not_eq_true _ ▸ hStill)
        -- the ticks that are left follow the first one
        generalize (ticks count after).2 = outcome at hLater ⊢
        cases hLater with
        | goesOn hAll hOpen' =>
          refine .goesOn ?_ hOpen'
          rwa [Nat.add_comm count, ← Nat.add_assoc]
        | @complete ran _ hPos hRan hSome hDone =>
          refine .complete (Nat.succ_pos ran) (Nat.succ_le_succ hRan) ?_ hDone
          rwa [Nat.succ_eq_one_add, ← Nat.add_assoc]
        | @crashed ran _ _ hRan hSome hCrash =>
          refine .crashed (Nat.succ_lt_succ hRan) ?_ hCrash
          rwa [Nat.succ_eq_one_add, ← Nat.add_assoc]

-- ---------------------------------------------------------------------------
-- The frames of a loop
-- ---------------------------------------------------------------------------

/-- The times that the clock has shown. -/
def clockReads (past : List Exchange) : List Nat :=
  past.filterMap fun exchange =>
    match exchange with
    | ⟨.now, nanos⟩ => some nanos
    | _ => none

/-- The lengths of the frames, by the times that the clock has shown since the frame before: a frame looks at the clock
when it begins, and again when it has run its ticks. -/
def framesSince : (last : Nat) → List Nat → List Nat
  | _, [] => []
  | last, [now] => [now - last]
  | last, now :: _ :: reads => (now - last) :: framesSince now reads

/-- The account of the frames that began after `start`. -/
def accountSince (start : Nat) (past : List Exchange) : Account :=
  .ofFrames tickNanos longestFrame ticksPerFrame (framesSince start (clockReads past))

/-- The time that counted for them. -/
def timeSince (start : Nat) (past : List Exchange) : Nat :=
  ((framesSince start (clockReads past)).map (clampFrame · longestFrame)).sum

/-- Their time, where some of the ticks that were planned are simulated and the others are left out. -/
theorem timeSince_eq {start simulated leftOut : Nat} {past : List Exchange}
    (hPlanned : (accountSince start past).planned = simulated + leftOut) :
    timeSince start past = simulated * tickNanos + leftOut * tickNanos + (accountSince start past).dropped +
      (accountSince start past).held := by
  have hBalanced := Account.balanced_ofFrames (show 0 < tickNanos by decide) longestFrame ticksPerFrame
    (framesSince start (clockReads past))
  rw [← Nat.add_mul, ← hPlanned]
  exact hBalanced.whole

/-- Between two frames, the loop has simulated the ticks of the account and holds its time. -/
structure Paced (start : Nat) (first : HostLoop) (past : List Exchange) (last held : Nat) (l : HostLoop) : Prop where
  frames (reads : List Nat) :
    framesSince start (clockReads past ++ reads) = framesSince start (clockReads past) ++ framesSince last reads
  held_eq : held = (accountSince start past).held
  simulated : first.run.Simulates (secondsOfNanos tickNanos) (accountSince start past).planned l.run

/-- What the loop leaves. The time of its frames is that of the ticks that it has simulated, of those that it has left out,
what was dropped and what is held. Ticks are left out only when the run is complete or the program has ended, and then only
such as were planned for the last frame. A line that cannot be printed is the end of the loop, and no run is left. -/
inductive Ends (start : Nat) (first : HostLoop) (past : List Exchange) : Except (Failure FileError) HostLoop → Prop where
  | ok {simulated leftOut : Nat} {last : HostLoop}
      (hSimulated : first.run.Simulates (secondsOfNanos tickNanos) simulated last.run)
      (hTime : timeSince start past = simulated * tickNanos + leftOut * tickNanos +
        (accountSince start past).dropped + (accountSince start past).held)
      (hLeftOut : 0 < leftOut → last.run.isComplete = true ∧ leftOut < ticksPerFrame) : Ends start first past (.ok last)
  | crashed {simulated leftOut : Nat} {last : Run} {crash : Crash}
      (hSimulated : first.run.Simulates (secondsOfNanos tickNanos) simulated last)
      (hCrash : last.step (secondsOfNanos tickNanos) = .error crash)
      (hTime : timeSince start past = simulated * tickNanos + leftOut * tickNanos +
        (accountSince start past).dropped + (accountSince start past).held)
      (hLeftOut : leftOut ≤ ticksPerFrame) :
      Ends start first past (.error (.crashed crash))
  | refused (error : FileError) : Ends start first past (.error (.refused error))

theorem Paced.stays {start last held : Nat} {first l : HostLoop} {past : List Exchange}
    (h : Paced start first past last held l) : Ends start first past (.ok l) :=
  .ok h.simulated (timeSince_eq (Nat.add_zero _).symm) fun hLess => absurd hLess (lt_irrefl 0)

section

variable {start last held now : Nat} {first l after : HostLoop} {plan : TickPlan} {past later : List Exchange}
  (h : Paced start first past last held l) (hOpen : l.run.isComplete = false)
  (hPlan : planTicks (held + clampFrame (now - last) longestFrame) tickNanos ticksPerFrame = plan)

include h hPlan

/-- One more frame is one more in the account. -/
theorem Paced.account_next {reads : List Nat} (hReads : clockReads later = clockReads past ++ reads)
    (hFrame : framesSince last reads = [now - last]) :
    (accountSince start later).planned = (accountSince start past).planned + plan.ticks ∧
      (accountSince start later).held = plan.rest := by
  have hNext : accountSince start later =
      (accountSince start past).frame tickNanos longestFrame ticksPerFrame (now - last) := by
    unfold accountSince
    rw [hReads, h.frames, hFrame, Account.ofFrames_concat]
  rw [hNext, ← hPlan, h.held_eq]
  exact ⟨rfl, rfl⟩

omit h in
theorem ticks_le_of_plan : plan.ticks ≤ ticksPerFrame := by
  rw [← hPlan, (planTicks_splits (by decide) _ _).ticks_eq]
  exact Nat.min_le_left _ _

/-- The time after one more frame of which `ran` ticks are simulated. -/
theorem Paced.time_next {ran : Nat} (hReads : clockReads later = clockReads past ++ [now]) (hRan : ran ≤ plan.ticks) :
    timeSince start later = ((accountSince start past).planned + ran) * tickNanos + (plan.ticks - ran) * tickNanos +
      (accountSince start later).dropped + (accountSince start later).held := by
  obtain ⟨hPlanned, -⟩ := h.account_next hPlan hReads rfl
  refine timeSince_eq ?_
  rw [hPlanned, Nat.add_assoc, Nat.add_sub_of_le hRan]

include hOpen

/-- A frame in which the run becomes complete may leave ticks out, but not the first one. -/
theorem Paced.ends (hReads : clockReads later = clockReads past ++ [now]) (hTicks : (ticks plan.ticks l).2 = .ok after)
    (hDone : after.run.isComplete = true) : Ends start first later (.ok after) := by
  have hLimit := ticks_le_of_plan hPlan
  have hEnd := ticks_end plan.ticks h.simulated hOpen
  rw [hTicks] at hEnd
  cases hEnd with
  | goesOn _ hStill => cases hDone.symm.trans hStill
  | @complete ran _ hPos hRan hSome _ =>
    exact .ok hSome (h.time_next hPlan hReads hRan) fun _ => ⟨hDone, by omega⟩

/-- A frame after which the run goes on has simulated all of its ticks. -/
theorem Paced.next {last' : Nat} (hReads : clockReads later = clockReads past ++ [now, last'])
    (hTicks : (ticks plan.ticks l).2 = .ok after) (hStill : after.run.isComplete = false) :
    Paced start first later now plan.rest after := by
  obtain ⟨hPlanned, hHeld⟩ := h.account_next hPlan hReads rfl
  refine ⟨fun reads => ?_, hHeld.symm, ?_⟩
  · rw [hReads, List.append_assoc, h.frames, h.frames, List.append_assoc]
    rfl
  · have hEnd := ticks_end plan.ticks h.simulated hOpen
    rw [hTicks] at hEnd
    cases hEnd with
    | goesOn hAll _ =>
      rw [hPlanned]
      exact hAll
    | complete _ _ _ hDone => cases hDone.symm.trans hStill

end

end HostLoop

end PlanReplay

import PlanReplay.Proofs.Plan.Order

/-!
# Waits

A waiting marker whose target lies ahead of everything named so far becomes a wait, and this wait divides the plan: it
comes after all actions and waits of earlier lines, and before the actions whose offsets count from its target. The
base of the offsets may jump back at a marker, but the latest moment never does, and a wait begins there.

* `Plan.startRank_outcome_le` — what a line gives does not start after the latest moment from there on.
* `Plan.outcome_of_line` — an action of a plan is what the line with its number gives.
* `Plan.ofText_wait` — a wait between what comes before it and what comes after it.
-/

namespace PlanReplay.Plan

open Text

variable {fallback : Float} {lines : List String}

-- ---------------------------------------------------------------------------
-- Before and after in a plan
-- ---------------------------------------------------------------------------

section Precedes

variable {before after : List (TimedAction Float)} {a b w : TimedAction Float}

theorem Precedes.asymm (h : Precedes a b) : ¬ Precedes b a := by
  unfold Precedes at h ⊢
  omega

theorem mem_before_of_precedes (hSorted : (before ++ w :: after).Pairwise Precedes) (ha : a ∈ before ++ w :: after)
    (h : Precedes a w) : a ∈ before := by
  obtain ⟨-, hAfter, -⟩ := List.pairwise_append.mp hSorted
  rcases List.mem_append.mp ha with hBefore | hRest
  · exact hBefore
  · rcases List.mem_cons.mp hRest with rfl | hLater
    · exact absurd h h.asymm
    · exact absurd h ((List.pairwise_cons.mp hAfter).1 a hLater).asymm

theorem mem_after_of_precedes (hSorted : (before ++ w :: after).Pairwise Precedes) (ha : a ∈ before ++ w :: after)
    (h : Precedes w a) : a ∈ after := by
  obtain ⟨-, -, hAcross⟩ := List.pairwise_append.mp hSorted
  rcases List.mem_append.mp ha with hBefore | hRest
  · exact absurd h (hAcross a hBefore w List.mem_cons_self).asymm
  · rcases List.mem_cons.mp hRest with rfl | hLater
    · exact absurd h h.asymm
    · exact hLater

end Precedes

-- ---------------------------------------------------------------------------
-- Lines and their numbers
-- ---------------------------------------------------------------------------

/-- An action of a plan is what the line with its number gives. -/
theorem outcome_of_line {earlier later : List PlanLine} {line : PlanLine} {a : TimedAction Float}
    (hUsed : usedLines lines = earlier ++ line :: later) (ha : a ∈ (ofLines fallback lines).actions)
    (hLine : a.line = earlier.length + 1) :
    outcome (missingDuration fallback (ofLines fallback lines).dialect) earlier line = some a := by
  obtain ⟨before, here, after, hSplit, hOutcome⟩ := mem_actions.mp ha
  have hPlace : before.length = earlier.length := Nat.succ.inj ((line_of_outcome hOutcome).symm.trans hLine)
  obtain ⟨rfl, hRest⟩ := List.append_inj (hSplit.symm.trans hUsed) hPlace
  obtain ⟨rfl, rfl⟩ := List.cons.inj hRest
  exact hOutcome

/-- A line gives one action at most. -/
theorem eq_of_line {a b : TimedAction Float} (ha : a ∈ (ofLines fallback lines).actions)
    (hb : b ∈ (ofLines fallback lines).actions) (h : a.line = b.line) : a = b := by
  obtain ⟨before, here, after, hSplit, hOutcome⟩ := mem_actions.mp ha
  have hSame := outcome_of_line hSplit hb (h.symm.trans (line_of_outcome hOutcome))
  exact Option.some.inj (hOutcome.symm.trans hSame)

/-- What a line gives does not start after the latest moment of the lines up to it, nor of any more. -/
theorem startRank_outcome_le {missing : Float} {earlier later : List PlanLine} {line : PlanLine}
    {a : TimedAction Float} (hAll : ∀ l ∈ earlier ++ line :: later, l.Accepted)
    (h : outcome missing earlier line = some a) : startRank a.start ≤ startRank (latest (earlier ++ line :: later)) := by
  cases line with
  | other => cases h
  | waiting target =>
    obtain ⟨-, hWait⟩ := Option.ite_none_right_eq_some.mp h
    obtain rfl := Option.some.inj hWait
    exact startRank_latest_le hAll
  | action action =>
    obtain rfl := Option.some.inj h
    rw [List.append_cons] at hAll ⊢
    refine le_trans ?_ (startRank_latest_le hAll)
    rw [List.forall_mem_append, List.forall_mem_append, List.forall_mem_singleton] at hAll
    rw [startRank_latest_concat hAll.1.1 hAll.1.2 rfl]
    exact le_max_right _ _

/-- Offsets count from the target of a marker until there is another marker. -/
theorem lastTarget_of_unmarked (earlier : List PlanLine) (target : Float) {between : List PlanLine}
    (hBetween : ∀ line ∈ between, ∀ next, line ≠ .waiting next) :
    lastTarget (earlier ++ .waiting target :: between) = target := by
  induction between using List.reverseRecOn with
  | nil => exact lastTarget_concat _ _
  | append_singleton between line ih =>
    rw [List.forall_mem_append, List.forall_mem_singleton] at hBetween
    rw [← List.cons_append, ← List.append_assoc, lastTarget_concat, ih hBetween.1]
    cases line with
    | waiting next => exact absurd rfl (hBetween.2 next)
    | other | action a => rfl

-- ---------------------------------------------------------------------------
-- Waits
-- ---------------------------------------------------------------------------

section Wait

variable {earlier later : List PlanLine} {target : Float} {w a : TimedAction Float}
  (hUsed : usedLines lines = earlier ++ .waiting target :: later) (hWait : w ∈ (ofLines fallback lines).actions)
  (hLine : w.line = earlier.length + 1)

include hUsed hWait hLine

/-- A wait leads from the latest moment before it to the target of its marker, which lies ahead. -/
theorem wait_of_line : w = .wait (latest earlier) (target - latest earlier) (earlier.length + 1) ∧
    latest earlier < target ∧ target.isFinite = true ∧ 0 ≤ target := by
  obtain ⟨-, hTarget⟩ := accepted_of_split hUsed
  obtain ⟨hAhead, hOutcome⟩ := Option.ite_none_right_eq_some.mp (outcome_of_line hUsed hWait hLine)
  exact ⟨(Option.some.inj hOutcome).symm, Double.lt_of_sub_pos hTarget zero_le_latest hAhead, hTarget,
    (Double.of_sub_pos hTarget zero_le_latest hAhead).1⟩

/-- Actions of earlier lines stand before the wait, and do not start after it. -/
theorem precedes_wait (ha : a ∈ (ofLines fallback lines).actions) (hEarlier : a.line < w.line) :
    Precedes a w ∧ a.start ≤ w.start := by
  obtain ⟨before, line, after, hSplit, hOutcome⟩ := mem_actions.mp ha
  obtain ⟨hBefore, hHere⟩ := accepted_of_split hSplit
  obtain ⟨hAccepted, -⟩ := accepted_of_split hUsed
  -- the line of the action is one of those before the marker
  obtain ⟨middle, rfl⟩ : ∃ middle, earlier = before ++ line :: middle := by
    have hPlace : before.length < earlier.length := by
      rw [line_of_outcome hOutcome, hLine] at hEarlier
      omega
    have hPrefix : before ++ [line] <+: usedLines lines := ⟨after, by rw [hSplit, List.append_assoc]; rfl⟩
    obtain ⟨middle, hMiddle⟩ := List.prefix_of_prefix_length_le hPrefix ⟨_, hUsed.symm⟩
      (by rwa [List.length_append, List.length_singleton])
    exact ⟨middle, by rw [← hMiddle, List.append_assoc]; rfl⟩
  have hRank : startRank a.start ≤ startRank w.start := by
    rw [(wait_of_line hUsed hWait hLine).1]
    exact startRank_outcome_le hAccepted hOutcome
  have hNumber : w.start.isNaN = false := by
    rw [(wait_of_line hUsed hWait hLine).1]
    exact Double.isNumber_of_zero_le zero_le_latest
  exact ⟨(lt_or_eq_of_le hRank).imp_right fun hSame => ⟨hSame, hEarlier⟩,
    le_of_startRank (isNaN_outcome hBefore hHere hOutcome) hNumber hRank⟩

/-- An action with an offset that counts from the target of the marker stands after the wait, and does not start before
the target. -/
theorem wait_precedes {between rest : List PlanLine} {line : ActionLine} {offset : Float}
    (hLater : later = between ++ .action line :: rest) (hBetween : ∀ line ∈ between, ∀ next, line ≠ .waiting next)
    (hTime : line.time = .explicit offset) (hOffset : 0 ≤ offset) :
    ∃ a ∈ (ofLines fallback lines).actions, a.line = w.line + between.length + 1 ∧ target ≤ a.start ∧ Precedes w a := by
  obtain ⟨hStart, hAhead, hFinite, hZero⟩ := wait_of_line hUsed hWait hLine
  obtain ⟨hAccepted, -⟩ := accepted_of_split hUsed
  have hSplit : usedLines lines = (earlier ++ .waiting target :: between) ++ .action line :: rest := by
    rw [hUsed, hLater, List.append_assoc, List.cons_append]
  obtain ⟨-, hHere⟩ := accepted_of_split hSplit
  obtain ⟨a, hOutcome⟩ : ∃ a, outcome (missingDuration fallback (ofLines fallback lines).dialect)
      (earlier ++ .waiting target :: between) (.action line) = some a := ⟨_, rfl⟩
  have hSum : a.start = target + offset := by
    obtain rfl := Option.some.inj hOutcome
    change startAfter _ line.time = _
    rw [hTime, startAfter, lastTarget_of_unmarked earlier target hBetween]
  have hReached : target ≤ a.start := hSum ▸ Double.le_add hFinite (hHere.1 offset hTime) hZero hOffset
  refine ⟨a, mem_actions.mpr ⟨_, _, _, hSplit, hOutcome⟩, ?_, hReached, Or.inl ?_⟩
  · rw [line_of_outcome hOutcome, hLine, List.length_append, List.length_cons]
    omega
  · have hRank := startRank_lt hAhead
    have hNonneg := startRank_latest_nonneg hAccepted
    rw [hStart]
    exact hRank.trans_le (startRank_le_of_pos (hNonneg.trans_lt hRank) hReached)

end Wait

/-- **Waits separate what comes before from what comes after.** Where a waiting marker of a text gives a wait, the wait
starts before the target and ends at it. All actions and waits of earlier lines stand before it in the plan and do not
start after it. A line behind the marker with an offset that is not below zero gives an action that stands after the
wait and does not start before the target, as long as there is no other marker between the two. -/
theorem ofText_wait {text : String} {earlier later : List String} {marker : String} {target : Float}
    {w : TimedAction Float} (hText : Text.lines text = earlier ++ marker :: later)
    (hMarker : (readLine marker).2 = .ok (.waiting target)) (hWait : w ∈ (ofText fallback text).actions)
    (hLine : w.line = earlier.length + 1) :
    ∃ before after, (ofText fallback text).actions = before ++ w :: after ∧
      w = .wait w.start (target - w.start) w.line ∧ w.start < target ∧
      (∀ a ∈ (ofText fallback text).actions, a.line < w.line → a ∈ before ∧ a.start ≤ w.start) ∧
      ∀ between raw rest line offset, later = between ++ raw :: rest →
        (∀ other ∈ between, ∀ next, (readLine other).2 ≠ .ok (.waiting next)) →
        (readLine raw).2 = .ok (.action line) → line.time = .explicit offset → 0 ≤ offset →
        ∃ a ∈ after, a.line = w.line + between.length + 1 ∧ target ≤ a.start ∧
          ∀ b ∈ (ofText fallback text).actions, b.line = a.line → b = a := by
  have hUsed : usedLines (Text.lines text) = usedLines earlier ++ .waiting target :: usedLines later := by
    rw [hText, usedLines, List.map_append, List.map_cons, hMarker]
    rfl
  have hPlace : w.line = (usedLines earlier).length + 1 := by rw [hLine, usedLines, List.length_map]
  obtain ⟨before, after, hActions⟩ := List.append_of_mem hWait
  have hSorted : (ofText fallback text).actions.Pairwise Precedes := actions_sorted
  obtain ⟨hStart, hAhead, -, -⟩ := wait_of_line hUsed hWait hPlace
  refine ⟨before, after, hActions, ?_, ?_, ?_, ?_⟩
  · rw [hStart]
    rfl
  · rw [hStart]
    exact hAhead
  · intro a ha hEarlier
    obtain ⟨hPrecedes, hNotLater⟩ := precedes_wait hUsed hWait hPlace ha hEarlier
    rw [hActions] at hSorted ha
    exact ⟨mem_before_of_precedes hSorted ha hPrecedes, hNotLater⟩
  · intro between raw rest line offset hLater hBetween hRaw hTime hOffset
    have hSplit : usedLines later = usedLines between ++ .action line :: usedLines rest := by
      rw [hLater, usedLines, List.map_append, List.map_cons, hRaw]
      rfl
    have hUnmarked : ∀ used ∈ usedLines between, ∀ next, used ≠ .waiting next := by
      intro used hMem next hNext
      obtain ⟨other, hOther, rfl⟩ := List.mem_map.mp hMem
      cases hReading : (readLine other).2 with
      | error fault =>
        rw [hReading] at hNext
        cases hNext
      | ok read =>
        rw [hReading] at hNext
        exact hBetween other hOther next (hReading.trans (congrArg Except.ok hNext))
    obtain ⟨a, ha, hNumber, hReached, hPrecedes⟩ := wait_precedes hUsed hWait hPlace hSplit hUnmarked hTime hOffset
    have hUnique : ∀ b ∈ (ofText fallback text).actions, b.line = a.line → b = a := fun b hb => eq_of_line hb ha
    rw [usedLines, List.length_map] at hNumber
    change a ∈ (ofText fallback text).actions at ha
    rw [hActions] at hSorted ha
    exact ⟨a, mem_after_of_precedes hSorted ha hPrecedes, hNumber, hReached, hUnique⟩

/-- A wait between an action with an offset and one that counts from the target, and the marker after these jumps
back. -/
theorem ofText_wait_of_backward_marker :
    ∃ before after, (ofText 0 "1: (a)\n-----waiting---- [5]\n0.5: (b)\n-----waiting---- [4]\n").actions =
      before ++ .wait 1 4 2 :: after ∧ ⟨1, 0, "a", [], 1⟩ ∈ before ∧ ∃ a ∈ after, a.line = 3 ∧ 5 ≤ a.start := by
  obtain ⟨before, after, hActions, -, -, hBefore, hAfter⟩ := @ofText_wait 0
    "1: (a)\n-----waiting---- [5]\n0.5: (b)\n-----waiting---- [4]\n" ["1: (a)"] ["0.5: (b)", "-----waiting---- [4]"]
    "-----waiting---- [5]" 5 (.wait 1 4 2) (by decide) (by decide) (by decide) rfl
  refine ⟨before, after, hActions, (hBefore _ (by decide) (by decide)).1, ?_⟩
  obtain ⟨a, ha, hLine, hReached, -⟩ := hAfter [] "0.5: (b)" ["-----waiting---- [4]"]
    ⟨true, .explicit 0.5, none, "b", []⟩ 0.5 rfl nofun (by decide) rfl (by decide)
  exact ⟨a, ha, hLine, hReached⟩

end PlanReplay.Plan

import PlanReplay.Proofs.Double.Sum
import PlanReplay.Proofs.Plan.Dropped
import PlanReplay.Proofs.Plan.StartRank
import PlanReplay.Proofs.Plan.Times

/-!
# The order of a plan

Each line of a text gives at most one action, and which one depends on the lines before it: on the number of actions
among them, on the target of the last waiting marker and on the latest moment that they name. The plan consists of
these actions. They are in the order of their starts, and of their lines where starts agree, but for one case: zero
with a sign and zero without are the same time, and an action at the first one is put before all actions at the other.

* `Plan.actionCount`, `Plan.lastTarget`, `Plan.latest` — what a line finds when it is placed.
* `Plan.outcome`, `Plan.outcomes` — what one line gives, and what all lines give.
* `Plan.placeLines_outcomes` — placing lines one after the other gives just that.
* `Plan.startRank_latest_le` — the latest moment does not become earlier.
* `Plan.actions_sorted` — the actions of a plan ascend in rank and line.
* `Plan.ofLines_order` — the actions of a plan and their order.
-/

namespace PlanReplay.Plan

open Decimal Text

-- ---------------------------------------------------------------------------
-- What lines give
-- ---------------------------------------------------------------------------

section PerLine

variable {β : Type} {give : List PlanLine → PlanLine → Option β}

/-- What lines give that stand after `earlier`, where a line gives something that depends on all lines before it. -/
def perLine (give : List PlanLine → PlanLine → Option β) : List PlanLine → List PlanLine → List β
  | _, [] => []
  | earlier, line :: rest => (give earlier line).toList ++ perLine give (earlier ++ [line]) rest

theorem perLine_concat (earlier lines : List PlanLine) (line : PlanLine) :
    perLine give earlier (lines ++ [line]) =
      perLine give earlier lines ++ (give (earlier ++ lines) line).toList := by
  induction lines generalizing earlier with
  | nil => simp only [perLine, List.nil_append, List.append_nil]
  | cons first rest ih =>
    rw [List.cons_append, perLine, perLine, ih, List.append_assoc, List.append_assoc, List.singleton_append]

/-- What lines give is given by one of them. -/
theorem mem_perLine {earlier lines : List PlanLine} {b : β} :
    b ∈ perLine give earlier lines ↔
      ∃ before line after, lines = before ++ line :: after ∧ give (earlier ++ before) line = some b := by
  induction lines generalizing earlier with
  | nil =>
    constructor
    · exact nofun
    · rintro ⟨before, line, after, hLines, -⟩
      exact absurd hLines.symm (List.append_ne_nil_of_right_ne_nil _ (List.cons_ne_nil _ _))
  | cons first rest ih =>
    rw [perLine, List.mem_append, Option.mem_toList, ih]
    constructor
    · rintro (hHere | ⟨before, line, after, rfl, hGiven⟩)
      · exact ⟨[], first, rest, rfl, by rwa [List.append_nil]⟩
      · exact ⟨first :: before, line, after, rfl, by rwa [List.append_cons]⟩
    · rintro ⟨before, line, after, hLines, hGiven⟩
      cases before with
      | nil =>
        obtain ⟨rfl, rfl⟩ := List.cons.inj hLines
        exact Or.inl (by rwa [List.append_nil] at hGiven)
      | cons second before =>
        obtain ⟨rfl, rfl⟩ := List.cons.inj hLines
        exact Or.inr ⟨before, line, after, rfl, by rwa [List.append_cons] at hGiven⟩

end PerLine

/-- The number of actions on lines. -/
def actionCount (lines : List PlanLine) : Nat :=
  lines.countP fun | .action _ => true | _ => false

/-- Where the last waiting marker leads to. Before the first one it is zero. -/
def lastTarget (lines : List PlanLine) : Float := lines.foldl baseAfter 0

/-- The start of an action that stands after `earlier`. -/
def startAfter (earlier : List PlanLine) : LineTime → Float
  | .explicit offset => lastTarget earlier + offset
  | .positional => Float.ofNat (actionCount earlier)

/-- The moment that a line names: the start of its action, or the target of a waiting marker. -/
def moment? (earlier : List PlanLine) : PlanLine → Option Float
  | .other => none
  | .waiting target => some target
  | .action a => some (startAfter earlier a.time)

/-- The latest moment that lines name, but not before zero. -/
def latest (lines : List PlanLine) : Float := (perLine moment? [] lines).foldl Scalar.larger 0

/-- What a line gives that stands after `earlier`: its action, which lasts for `missing` if the line gives no
duration, or a wait from the latest moment so far to the target of a marker, if this is later. -/
def outcome (missing : Float) (earlier : List PlanLine) : PlanLine → Option (TimedAction Float)
  | .other => none
  | .waiting target =>
    if 0 < target - latest earlier then
      some (.wait (latest earlier) (target - latest earlier) (earlier.length + 1))
    else none
  | .action a =>
    some ⟨startAfter earlier a.time, a.duration.getD missing, a.name, a.args, earlier.length + 1⟩

/-- The actions and waits that lines give, in the order of the lines. -/
def outcomes (missing : Float) (lines : List PlanLine) : List (TimedAction Float) :=
  perLine (outcome missing) [] lines

/-- How long actions without a duration last. -/
def missingDuration (fallback : Float) (dialect : Dialect) : Float := if dialect = .temporal then fallback else 0

-- ---------------------------------------------------------------------------
-- Placing lines
-- ---------------------------------------------------------------------------

/-- What a line finds that is placed after others. -/
def cursorAfter (lines : List PlanLine) : PlanCursor := ⟨actionCount lines, lastTarget lines, latest lines⟩

theorem lastTarget_concat (earlier : List PlanLine) (line : PlanLine) :
    lastTarget (earlier ++ [line]) = baseAfter (lastTarget earlier) line := by
  rw [lastTarget, List.foldl_append]
  rfl

theorem latest_concat (earlier : List PlanLine) (line : PlanLine) :
    latest (earlier ++ [line]) = (moment? earlier line).toList.foldl Scalar.larger (latest earlier) := by
  rw [latest, perLine_concat, List.nil_append, List.foldl_append]
  rfl

/-- Placing a line leads to where the next one is placed. -/
theorem placeLine_cursorAfter (earlier : List PlanLine) (number : Nat) (line : PlanLine) :
    (placeLine (cursorAfter earlier) number line).1 = cursorAfter (earlier ++ [line]) := by
  unfold cursorAfter
  rw [lastTarget_concat, latest_concat, actionCount, actionCount, List.countP_append]
  cases line <;> rfl

/-- An action as it stands in a plan of a dialect. -/
def settled (fallback : Float) (dialect : Dialect) (entry : PlacedAction) : TimedAction Float :=
  if entry.openEnded = true ∧ dialect = .temporal then { entry.action with duration := fallback } else entry.action

variable {fallback : Float} {dialect : Dialect} {lines : List String}

/-- What placing a line adds is what the line gives. -/
theorem placeLine_outcome (earlier : List PlanLine) (line : PlanLine) :
    (placeLine (cursorAfter earlier) (earlier.length + 1) line).2.map (settled fallback dialect) =
      outcome (missingDuration fallback dialect) earlier line := by
  cases line with
  | other => rfl
  | waiting target =>
    change (if 0 < target - latest earlier then some _ else none : Option PlacedAction).map _ = ite _ _ _
    split
    · exact congrArg some (if_neg fun h => Bool.false_ne_true h.1)
    · rfl
  | action a =>
    obtain ⟨isPrefixed, time, duration, name, args⟩ := a
    refine congrArg some ?_
    unfold settled missingDuration
    cases duration with
    | some duration => cases time <;> rfl
    | none => by_cases hTemporal : dialect = .temporal <;> cases time <;> simp [hTemporal, startAfter, cursorAfter]

/-- **Placing lines one after the other** gives what the lines give, each with those before it. -/
theorem placeLines_outcomes (earlier used : List PlanLine) :
    (placeLines (cursorAfter earlier) (earlier.length + 1) used).map (settled fallback dialect) =
      perLine (outcome (missingDuration fallback dialect)) earlier used := by
  induction used generalizing earlier with
  | nil => rfl
  | cons line rest ih =>
    have hLength : earlier.length + 1 = (earlier ++ [line]).length := by rw [List.length_append, List.length_singleton]
    rw [placeLines_cons, perLine, List.map_append, placeLine_cursorAfter, ← placeLine_outcome, ← ih, ← hLength]
    cases (placeLine (cursorAfter earlier) (earlier.length + 1) line).2 <;> rfl

/-- The actions of a plan are what its lines give, sorted. -/
theorem actions_eq_outcomes : (ofLines fallback lines).actions =
    sortByStart (outcomes (missingDuration fallback (ofLines fallback lines).dialect) (usedLines lines)) := by
  have hDialect : (ofLines fallback lines).dialect =
      dialectOf (usedLines lines) (placeLines ⟨0, 0, 0⟩ 1 (usedLines lines)).isEmpty := by
    unfold ofLines
    dsimp only
    rw [List.map_map]
    rfl
  rw [actions_ofLines, ← hDialect, outcomes, ← placeLines_outcomes]
  rfl

-- ---------------------------------------------------------------------------
-- Moments
-- ---------------------------------------------------------------------------

theorem accepted_usedLines (lines : List String) : ∀ line ∈ usedLines lines, line.Accepted := by
  intro line hLine
  obtain ⟨raw, -, rfl⟩ := List.mem_map.mp hLine
  exact accepted_usable _

/-- The numbers of a line and of those before it have been checked. -/
theorem accepted_of_split {earlier later : List PlanLine} {line : PlanLine}
    (h : usedLines lines = earlier ++ line :: later) : (∀ line ∈ earlier, line.Accepted) ∧ line.Accepted := by
  have hAll := accepted_usedLines lines
  rw [h, List.forall_mem_append, List.forall_mem_cons] at hAll
  exact ⟨hAll.1, hAll.2.1⟩

section Moments

variable {used earlier : List PlanLine} {line : PlanLine}

theorem finite_lastTarget (hUsed : ∀ line ∈ used, line.Accepted) : (lastTarget used).isFinite = true := by
  induction used using List.reverseRecOn with
  | nil => rfl
  | append_singleton earlier line ih =>
    rw [List.forall_mem_append, List.forall_mem_singleton] at hUsed
    rw [lastTarget_concat]
    cases line with
    | waiting target => exact hUsed.2
    | other | action a => exact ih hUsed.1

/-- Moments are numbers, although a sum may be infinite. -/
theorem isNaN_startAfter {a : ActionLine} (hEarlier : ∀ line ∈ earlier, line.Accepted)
    (hLine : (PlanLine.action a).Accepted) : (startAfter earlier a.time).isNaN = false := by
  cases hTime : a.time with
  | positional => exact Double.isNaN_ofNat _
  | explicit offset => exact Double.isNaN_add (finite_lastTarget hEarlier) (hLine.1 offset hTime)

theorem isNaN_moment? {moment : Float} (hEarlier : ∀ line ∈ earlier, line.Accepted) (hLine : line.Accepted)
    (h : moment? earlier line = some moment) : moment.isNaN = false := by
  cases line with
  | other => cases h
  | waiting target =>
    obtain rfl := Option.some.inj h
    exact Double.isNaN_of_finite hLine
  | action a =>
    obtain rfl := Option.some.inj h
    exact isNaN_startAfter hEarlier hLine

theorem zero_le_latest : 0 ≤ latest used := by
  induction used using List.reverseRecOn with
  | nil => decide
  | append_singleton earlier line ih =>
    rw [latest_concat]
    cases moment? earlier line with
    | none => exact ih
    | some moment => exact Double.zero_le_larger ih moment

/-- A line that names a moment leads to the later one of this and the latest so far. -/
theorem startRank_latest_concat {moment : Float} (hEarlier : ∀ line ∈ earlier, line.Accepted) (hLine : line.Accepted)
    (h : moment? earlier line = some moment) :
    startRank (latest (earlier ++ [line])) = max (startRank (latest earlier)) (startRank moment) := by
  rw [latest_concat, h]
  exact startRank_larger (Double.isNumber_of_zero_le zero_le_latest) (isNaN_moment? hEarlier hLine h)

/-- **The latest moment** does not become earlier. -/
theorem startRank_latest_le {more : List PlanLine} (h : ∀ line ∈ used ++ more, line.Accepted) :
    startRank (latest used) ≤ startRank (latest (used ++ more)) := by
  induction more using List.reverseRecOn with
  | nil => rw [List.append_nil]
  | append_singleton more line ih =>
    rw [← List.append_assoc, List.forall_mem_append, List.forall_mem_singleton] at h
    rw [← List.append_assoc]
    refine (ih h.1).trans ?_
    cases hMoment : moment? (used ++ more) line with
    | none =>
      rw [latest_concat, hMoment]
      exact le_rfl
    | some moment =>
      rw [startRank_latest_concat h.1 h.2 hMoment]
      exact le_max_left _ _

theorem startRank_latest_nonneg (hUsed : ∀ line ∈ used, line.Accepted) : 0 ≤ startRank (latest used) := by
  have hNever : startRank (latest []) ≤ startRank (latest ([] ++ used)) := startRank_latest_le hUsed
  have hZero : startRank (latest []) = 0 := startRank_zero.1
  rwa [hZero] at hNever

end Moments

-- ---------------------------------------------------------------------------
-- Order
-- ---------------------------------------------------------------------------

/-- An action stands before another one in a plan: it has the smaller rank, or else the earlier line. -/
def Precedes (a b : TimedAction Float) : Prop :=
  startRank a.start < startRank b.start ∨ startRank a.start = startRank b.start ∧ a.line < b.line

theorem line_of_outcome {missing : Float} {earlier : List PlanLine} {line : PlanLine} {a : TimedAction Float}
    (h : outcome missing earlier line = some a) : a.line = earlier.length + 1 := by
  cases line with
  | other => cases h
  | waiting target =>
    obtain ⟨-, hWait⟩ := Option.ite_none_right_eq_some.mp h
    obtain rfl := Option.some.inj hWait
    rfl
  | action line =>
    obtain rfl := Option.some.inj h
    rfl

/-- Lines give their actions one after the other. -/
theorem outcomes_ascending (missing : Float) (earlier used : List PlanLine) :
    (perLine (outcome missing) earlier used).Pairwise fun a b => a.line < b.line := by
  induction used generalizing earlier with
  | nil => exact .nil
  | cons line rest ih =>
    rw [perLine, List.pairwise_append]
    refine ⟨?_, ih _, ?_⟩
    · cases outcome missing earlier line with
      | none => exact .nil
      | some a => exact List.pairwise_singleton _ _
    · intro a ha b hb
      obtain ⟨before, later, after, -, hLater⟩ := mem_perLine.mp hb
      rw [line_of_outcome (Option.mem_toList.mp ha), line_of_outcome hLater, List.length_append, List.length_append,
        List.length_singleton]
      omega

/-- **The actions of a plan** ascend in rank and line. -/
theorem actions_sorted : (ofLines fallback lines).actions.Pairwise Precedes := by
  rw [actions_eq_outcomes]
  exact sortByKey_stable _ (outcomes_ascending _ _ _)

/-- An action of a plan is what one of the lines gives. -/
theorem mem_actions {a : TimedAction Float} : a ∈ (ofLines fallback lines).actions ↔
    ∃ before line after, usedLines lines = before ++ line :: after ∧
      outcome (missingDuration fallback (ofLines fallback lines).dialect) before line = some a := by
  rw [actions_eq_outcomes]
  exact (sortByKey_perm _ _).mem_iff.trans mem_perLine

section Outcome

variable {missing : Float} {earlier : List PlanLine} {line : PlanLine} {a : TimedAction Float}

theorem isNaN_outcome (hEarlier : ∀ line ∈ earlier, line.Accepted) (hLine : line.Accepted)
    (h : outcome missing earlier line = some a) : a.start.isNaN = false := by
  cases line with
  | other => cases h
  | waiting target =>
    obtain ⟨-, hWait⟩ := Option.ite_none_right_eq_some.mp h
    obtain rfl := Option.some.inj hWait
    exact Double.isNumber_of_zero_le zero_le_latest
  | action line =>
    obtain rfl := Option.some.inj h
    exact isNaN_startAfter hEarlier hLine

/-- Only an offset that is zero with a sign, after a marker with this target, leads to this start. -/
theorem explicit_of_negZero (hEarlier : ∀ line ∈ earlier, line.Accepted) (hLine : line.Accepted)
    (h : outcome missing earlier line = some a) (hStart : a.start = -0.0) :
    lastTarget earlier = -0.0 ∧ ∃ action, line = .action action ∧ action.time = .explicit (-0.0) := by
  cases line with
  | other => cases h
  | waiting target =>
    obtain ⟨-, hWait⟩ := Option.ite_none_right_eq_some.mp h
    obtain rfl := Option.some.inj hWait
    change latest earlier = -0.0 at hStart
    have hZero := startRank_latest_nonneg hEarlier
    rw [hStart, startRank_zero.2] at hZero
    exact absurd hZero (by decide)
  | action action =>
    obtain rfl := Option.some.inj h
    change startAfter earlier action.time = -0.0 at hStart
    cases hTime : action.time with
    | positional =>
      rw [hTime] at hStart
      exact absurd hStart (Double.ofNat_ne_negZero _)
    | explicit offset =>
      rw [hTime] at hStart
      obtain ⟨hTarget, rfl⟩ :=
        Double.eq_negZero_of_add (finite_lastTarget hEarlier) (hLine.1 offset hTime) hStart
      exact ⟨hTarget, action, rfl, hTime⟩

end Outcome

/-- Of two actions in a row that start at the same time, the first one is on the earlier line, or it starts at zero
with a sign and the other one at zero without. -/
theorem line_lt_of_precedes {a b : TimedAction Float} (h : Precedes a b) (hSame : (a.start == b.start) = true) :
    a.line < b.line ∨ a.start = -0.0 ∧ b.start = 0 := by
  rcases Double.eq_of_beq hSame with hEqual | hZeros | ⟨hFirst, hSecond⟩
  · rcases h with hRank | ⟨-, hLine⟩
    · rw [hEqual] at hRank
      exact absurd hRank (lt_irrefl _)
    · exact Or.inl hLine
  · exact Or.inr hZeros
  · unfold Precedes at h
    rw [hFirst, hSecond, startRank_zero.1, startRank_zero.2] at h
    omega

/-- **The order of a plan.** Its actions are those that its lines give, no more and no fewer. Their starts never
decrease. Where starts are equal, the lines ascend, unless the first action starts at zero with a sign and the second
at zero without; and the start of an action is zero with a sign only after a waiting marker and with an offset that
are both written so. -/
theorem ofLines_order (fallback : Float) (lines : List String) :
    (ofLines fallback lines).actions.Perm
        (outcomes (missingDuration fallback (ofLines fallback lines).dialect) (usedLines lines)) ∧
      (ofLines fallback lines).actions.Pairwise (fun a b => a.start ≤ b.start) ∧
      (ofLines fallback lines).actions.Pairwise (fun a b =>
        (a.start == b.start) = true → a.line < b.line ∨ a.start = -0.0 ∧ b.start = 0) ∧
      ∀ a ∈ (ofLines fallback lines).actions, a.start = -0.0 →
        ∃ earlier line later, usedLines lines = earlier ++ .action line :: later ∧ a.line = earlier.length + 1 ∧
          lastTarget earlier = -0.0 ∧ line.time = .explicit (-0.0) := by
  refine ⟨?perm, ?starts, actions_sorted.imp line_lt_of_precedes, ?zeros⟩
  case perm =>
    rw [actions_eq_outcomes]
    exact sortByKey_perm _ _
  case starts =>
    have hNumbers : ∀ a ∈ (ofLines fallback lines).actions, a.start.isNaN = false := by
      intro a ha
      obtain ⟨earlier, line, later, hUsed, hOutcome⟩ := mem_actions.mp ha
      obtain ⟨hEarlier, hLine⟩ := accepted_of_split hUsed
      exact isNaN_outcome hEarlier hLine hOutcome
    refine actions_sorted.imp_of_mem ?_
    intro a b ha hb hPrecedes
    exact le_of_startRank (hNumbers a ha) (hNumbers b hb) (hPrecedes.elim le_of_lt fun h => h.1.le)
  case zeros =>
    intro a ha hStart
    obtain ⟨earlier, line, later, hUsed, hOutcome⟩ := mem_actions.mp ha
    obtain ⟨hEarlier, hLine⟩ := accepted_of_split hUsed
    obtain ⟨hTarget, action, rfl, hTime⟩ := explicit_of_negZero hEarlier hLine hOutcome hStart
    exact ⟨earlier, action, later, hUsed, line_of_outcome hOutcome, hTarget, hTime⟩

/-- Not the lines but the signs decide here: both actions start at zero, and the one on the third line is first. -/
theorem ofLines_order_of_signed_zero :
    ¬ (ofLines 0 ["(a)", "-----waiting---- [-0]", "-0: (b)"]).actions.Pairwise (fun a b =>
      (a.start == b.start) = true → a.line < b.line) := by
  decide

end PlanReplay.Plan

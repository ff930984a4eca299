import PlanReplay.Plan.Normal
import PlanReplay.Proofs.Double.Range

/-!
# The times of a plan

Each number of a line is checked when the line is read; the times of the plan are sums and differences of such
numbers. Whatever the lines are, the durations are finite and not below zero, and so are the pauses that the
waiting markers stand for. A start is finite as well, unless an offset leads from its waiting marker out of the
range of doubles: no line is refused for that.

* `PlanLine.Accepted` — what the reader has checked; `PlanLine.accepted_of_parse`.
* `Plan.explicitStarts` — the starts that lines with an offset get.
* `Plan.placeLine_last`, `Plan.placeLine_duration` and `Plan.placeLine_start` — one line on the time axis;
  `Plan.placeLines_duration` and `Plan.placeLines_start` — all lines.
* `Plan.ofText_times` — the times of the plan of a text.
-/

namespace PlanReplay

open Decimal Text

-- ---------------------------------------------------------------------------
-- Numbers on lines
-- ---------------------------------------------------------------------------

/-- A duration that can be used. -/
def Lasting (duration : Float) : Prop := duration.isFinite = true ∧ 0 ≤ duration

namespace PlanLine

/-- Every number of the line is finite, and a duration is not below zero. -/
def Accepted : PlanLine → Prop
  | .other => True
  | .waiting target => target.isFinite = true
  | .action a =>
    (∀ offset, a.time = .explicit offset → offset.isFinite = true) ∧
      ∀ duration, a.duration = some duration → Lasting duration

theorem accept_of_bracketNumber? {accept : Float → Bool} {cs : List Char} {value : Float}
    (h : bracketNumber? accept cs = some value) : accept value = true :=
  (Option.filter_eq_some_iff.mp h).2

theorem finite_of_parseTime {cs : List Char} {offset : Float} (h : parseTime cs = .ok (.explicit offset)) :
    offset.isFinite = true := by
  unfold parseTime at h
  split at h
  · cases h
  · split at h
    · split at h
      · rename_i hFinite
        cases h
        exact hFinite
      · cases h
    · split at h <;> cases h

theorem lasting_of_parseDuration? {cs : List Char} {duration : Float}
    (h : parseDuration? cs = some (.ok (some duration))) : Lasting duration := by
  unfold parseDuration? at h
  split at h
  · cases h
  · split at h
    · rename_i hNumber
      cases h
      have hAccept := accept_of_bracketNumber? hNumber
      rw [Bool.and_eq_true, decide_eq_true_iff] at hAccept
      exact hAccept
    · cases h
  · cases h

theorem accepted_of_parseAction {cs : List Char} {line : PlanLine} (h : parseAction cs = .ok line) :
    line.Accepted := by
  unfold parseAction at h
  split at h
  · cases h
    trivial
  · split at h
    · cases h
      trivial
    · split at h
      · cases h
        trivial
      · cases h
        trivial
      · cases h
      · rename_i duration? _ hDuration
        have hLasting : ∀ duration, duration? = some duration → Lasting duration := fun duration hSome =>
          lasting_of_parseDuration? (hSome ▸ hDuration)
        split at h
        · cases h
          exact ⟨fun _ hTime => LineTime.noConfusion hTime, hLasting⟩
        · split at h
          · rename_i hTime
            cases h
            exact ⟨fun _ hOffset => finite_of_parseTime (hTime.trans (by rw [← hOffset])), hLasting⟩
          · cases h

/-- A line that is read holds numbers that have been checked. -/
theorem accepted_of_parse {cs : List Char} {line : PlanLine} (h : parse cs = .ok line) : line.Accepted := by
  unfold parse at h
  split at h
  · split at h
    · rename_i hNumber
      cases h
      exact accept_of_bracketNumber? hNumber
    · cases h
  · exact accepted_of_parseAction h

end PlanLine

namespace Plan

theorem accepted_usable (cs : List Char) : (usable (PlanLine.parse cs)).Accepted := by
  cases hReading : PlanLine.parse cs with
  | error fault => trivial
  | ok line => exact PlanLine.accepted_of_parse hReading

-- ---------------------------------------------------------------------------
-- One line
-- ---------------------------------------------------------------------------

/-- The start that a line with an offset gets, when the last waiting marker leads to `base`. -/
def explicitStart? (base : Float) : PlanLine → Option Float
  | .action a =>
    match a.time with
    | .explicit offset => some (base + offset)
    | .positional => none
  | _ => none

/-- Where the last waiting marker leads to, after a line. -/
def baseAfter (base : Float) : PlanLine → Float
  | .waiting target => target
  | _ => base

/-- The starts that the lines with an offset get. -/
def explicitStarts : Float → List PlanLine → List Float
  | _, [] => []
  | base, line :: rest => (explicitStart? base line).toList ++ explicitStarts (baseAfter base line) rest

variable {cursor : PlanCursor} {number : Nat} {line : PlanLine} {placed : PlacedAction}

theorem placeLine_base : (placeLine cursor number line).1.base = baseAfter cursor.base line := by
  cases line <;> rfl

theorem placeLine_position : (placeLine cursor number line).1.position ≤ cursor.position + 1 := by
  cases line with
  | other | waiting target => exact Nat.le_succ _
  | action a => exact le_rfl

/-- The latest start or target so far does not fall below zero. -/
theorem placeLine_last (hLast : 0 ≤ cursor.last) : 0 ≤ (placeLine cursor number line).1.last := by
  cases line with
  | other => exact hLast
  | waiting target => exact Double.zero_le_larger hLast _
  | action a => exact Double.zero_le_larger hLast _

/-- A waiting marker that lies ahead is a pause with times that can be used, from a finite start on. -/
theorem lasting_gap {last target : Float} (hLast : 0 ≤ last) (hTarget : target.isFinite = true)
    (hAhead : 0 < target - last) : last.isFinite = true ∧ Lasting (target - last) := by
  obtain ⟨hTargetZero, hLastFinite⟩ := Double.of_sub_pos hTarget hLast hAhead
  exact ⟨hLastFinite, Double.finite_sub hTarget hLastFinite hTargetZero hLast, Double.le_of_lt hAhead⟩

theorem placeLine_duration (hLast : 0 ≤ cursor.last) (hLine : line.Accepted)
    (h : (placeLine cursor number line).2 = some placed) : Lasting placed.action.duration := by
  cases line with
  | other => cases h
  | waiting target =>
    obtain ⟨hAhead, hPlaced⟩ := Option.ite_none_right_eq_some.mp h
    obtain rfl := Option.some.inj hPlaced
    exact (lasting_gap hLast hLine hAhead).2
  | action a =>
    obtain rfl := Option.some.inj h
    show Lasting (a.duration.getD 0)
    cases hDuration : a.duration with
    | none => exact ⟨by decide, by decide⟩
    | some duration => exact hLine.2 duration hDuration

/-- Only an offset can lead to a start that is not finite. -/
theorem placeLine_start (hLast : 0 ≤ cursor.last) (hLine : line.Accepted) (hPosition : cursor.position ≤ maxUInt64) :
    (∀ placed, (placeLine cursor number line).2 = some placed → placed.action.start.isFinite = true) ↔
      ∀ start, explicitStart? cursor.base line = some start → start.isFinite = true := by
  cases line with
  | other =>
    constructor
    · intro _ start hStart
      cases hStart
    · intro _ placed hPlaced
      cases hPlaced
  | waiting target =>
    constructor
    · intro _ start hStart
      cases hStart
    · intro _ placed h
      obtain ⟨hAhead, hPlaced⟩ := Option.ite_none_right_eq_some.mp h
      obtain rfl := Option.some.inj hPlaced
      exact (lasting_gap hLast hLine hAhead).1
  | action a =>
    obtain ⟨isPrefixed, time, duration, name, args⟩ := a
    cases time with
    | positional =>
      constructor
      · intro _ start hStart
        cases hStart
      · intro _ placed h
        obtain rfl := Option.some.inj h
        exact Double.finite_ofNat hPosition
    | explicit offset =>
      constructor
      · intro hPlaced start hStart
        obtain rfl := Option.some.inj hStart
        have hHere := hPlaced _ rfl
        exact hHere
      · intro hStart placed h
        obtain rfl := Option.some.inj h
        exact hStart _ rfl

-- ---------------------------------------------------------------------------
-- All lines
-- ---------------------------------------------------------------------------

theorem placeLines_cons (rest : List PlanLine) :
    placeLines cursor number (line :: rest) = (placeLine cursor number line).2.toList ++
      placeLines (placeLine cursor number line).1 (number + 1) rest := by
  rw [placeLines]
  rcases placeLine cursor number line with ⟨next, _ | placed⟩ <;> rfl

/-- What is placed comes from one of the lines, at a cursor whose latest start is not below zero. -/
theorem exists_placeLine {lines : List PlanLine} :
    ∀ {cursor : PlanCursor} {number : Nat}, 0 ≤ cursor.last → ∀ placed ∈ placeLines cursor number lines,
      ∃ line ∈ lines, ∃ (here : PlanCursor) (n : Nat), 0 ≤ here.last ∧ (placeLine here n line).2 = some placed := by
  induction lines with
  | nil =>
    intro cursor number _ placed hPlaced
    cases hPlaced
  | cons line rest ih =>
    intro cursor number hLast placed hPlaced
    rw [placeLines_cons, List.mem_append, Option.mem_toList] at hPlaced
    rcases hPlaced with hHere | hLater
    · exact ⟨line, List.mem_cons_self, cursor, number, hLast, hHere⟩
    · obtain ⟨later, hMem, hPlace⟩ := ih (placeLine_last hLast) placed hLater
      exact ⟨later, List.mem_cons_of_mem _ hMem, hPlace⟩

/-- All durations and pauses can be used. -/
theorem placeLines_duration {lines : List PlanLine} (hLines : ∀ line ∈ lines, line.Accepted) {cursor : PlanCursor}
    {number : Nat} (hLast : 0 ≤ cursor.last) :
    ∀ placed ∈ placeLines cursor number lines, Lasting placed.action.duration := by
  intro placed hPlaced
  obtain ⟨line, hLine, here, n, hHere, hPlace⟩ := exists_placeLine hLast placed hPlaced
  exact placeLine_duration hHere (hLines line hLine) hPlace

/-- The starts are finite when those of the lines with an offset are. -/
theorem placeLines_start {lines : List PlanLine} (hLines : ∀ line ∈ lines, line.Accepted) :
    ∀ {cursor : PlanCursor} {number : Nat}, 0 ≤ cursor.last → cursor.position + lines.length ≤ maxUInt64 →
      ((∀ placed ∈ placeLines cursor number lines, placed.action.start.isFinite = true) ↔
        ∀ start ∈ explicitStarts cursor.base lines, start.isFinite = true) := by
  induction lines with
  | nil =>
    intro cursor number _ _
    constructor
    · intro _ start hStart
      cases hStart
    · intro _ placed hPlaced
      cases hPlaced
  | cons line rest ih =>
    intro cursor number hLast hRoom
    rw [List.forall_mem_cons] at hLines
    rw [List.length_cons] at hRoom
    have hNext : (placeLine cursor number line).1.position + rest.length ≤ maxUInt64 := by
      have hStep : (placeLine cursor number line).1.position ≤ cursor.position + 1 := placeLine_position
      omega
    have hPosition : cursor.position ≤ maxUInt64 := by omega
    rw [placeLines_cons, explicitStarts, ← @placeLine_base cursor number line]
    simp only [List.forall_mem_append, Option.mem_toList]
    exact and_congr (placeLine_start hLast hLines.1 hPosition) (ih hLines.2 (placeLine_last hLast) hNext)

-- ---------------------------------------------------------------------------
-- The plan of a text
-- ---------------------------------------------------------------------------

/-- What the lines of a text say; faulty ones say nothing. -/
def linesOf (text : String) : List PlanLine :=
  ((Text.lines text).map readLine).map fun (_, reading) => usable reading

theorem length_linesOf (text : String) : (linesOf text).length = (Text.lines text).length := by
  rw [linesOf, List.length_map, List.length_map]

theorem accepted_linesOf {text : String} : ∀ line ∈ linesOf text, line.Accepted := by
  intro line hLine
  obtain ⟨reading, hReading, rfl⟩ := List.mem_map.mp hLine
  obtain ⟨raw, -, rfl⟩ := List.mem_map.mp hReading
  unfold readLine
  dsimp only
  exact accepted_usable _

variable {fallback : Float} {text : String}

/-- An action of a plan stands where its line was placed, and lasts as its line says or as long as the fallback. -/
theorem exists_placed {action : TimedAction Float} (h : action ∈ (ofText fallback text).actions) :
    ∃ placed ∈ placeLines ⟨0, 0, 0⟩ 1 (linesOf text), action.start = placed.action.start ∧
      (action.duration = placed.action.duration ∨ action.duration = fallback) := by
  obtain ⟨placed, hPlaced, rfl⟩ := List.mem_map.mp ((sortByKey_perm _ _).mem_iff.mp h)
  refine ⟨placed, hPlaced, ?_⟩
  split
  · exact ⟨rfl, Or.inr rfl⟩
  · exact ⟨rfl, Or.inl rfl⟩

theorem exists_action {placed : PlacedAction} (h : placed ∈ placeLines ⟨0, 0, 0⟩ 1 (linesOf text)) :
    ∃ action ∈ (ofText fallback text).actions, action.start = placed.action.start := by
  refine ⟨_, (sortByKey_perm _ _).mem_iff.mpr (List.mem_map_of_mem h), ?_⟩
  split <;> rfl

theorem dialect_of_waiting {target : Float} (h : .waiting target ∈ linesOf text) :
    (ofText fallback text).dialect = .event :=
  if_pos (List.any_eq_true.mpr ⟨_, h, rfl⟩)

/-- Without waiting markers every offset counts from zero. -/
theorem explicitStarts_unmarked {lines : List PlanLine} (hLines : ∀ line ∈ lines, line.Accepted)
    (hUnmarked : ∀ line ∈ lines, ∀ target, line ≠ .waiting target) :
    ∀ start ∈ explicitStarts 0 lines, start.isFinite = true := by
  induction lines with
  | nil =>
    intro start hStart
    cases hStart
  | cons line rest ih =>
    intro start hStart
    rw [List.forall_mem_cons] at hLines hUnmarked
    have hBase : baseAfter 0 line = 0 := by
      cases line with
      | waiting target => exact absurd rfl (hUnmarked.1 target)
      | other | action a => rfl
    rw [explicitStarts, hBase, List.mem_append, Option.mem_toList] at hStart
    rcases hStart with hHere | hLater
    · cases line with
      | other | waiting target => cases hHere
      | action a =>
        obtain ⟨isPrefixed, time, duration, name, args⟩ := a
        cases time with
        | positional => cases hHere
        | explicit offset =>
          obtain rfl := Option.some.inj hHere
          exact Double.finite_zero_add (hLines.1.1 offset rfl)
    · exact ih hLines.2 hUnmarked.2 start hLater

/-- **The times of a plan can be used, save for starts that leave the range.** Whatever a text holds, every duration
of its plan is finite and not below zero. A start that is not finite is one that an offset gives, added to the
target of a waiting marker; in every other dialect all starts are finite. -/
theorem ofText_times (hFinite : fallback.isFinite = true) (hFallback : 0 ≤ fallback)
    (hCount : (Text.lines text).length ≤ maxUInt64) :
    (∀ action ∈ (ofText fallback text).actions, action.duration.isFinite = true ∧ 0 ≤ action.duration) ∧
      ((∀ action ∈ (ofText fallback text).actions, action.start.isFinite = true) ↔
        ∀ start ∈ explicitStarts 0 (linesOf text), start.isFinite = true) ∧
      ((ofText fallback text).dialect ≠ .event →
        ∀ action ∈ (ofText fallback text).actions, action.start.isFinite = true) := by
  have hStarts : (∀ action ∈ (ofText fallback text).actions, action.start.isFinite = true) ↔
      ∀ start ∈ explicitStarts 0 (linesOf text), start.isFinite = true := by
    rw [← length_linesOf, ← Nat.zero_add (linesOf text).length] at hCount
    have hPlaces : (∀ placed ∈ placeLines ⟨0, 0, 0⟩ 1 (linesOf text), placed.action.start.isFinite = true) ↔
        ∀ start ∈ explicitStarts 0 (linesOf text), start.isFinite = true :=
      placeLines_start accepted_linesOf (show (0 : Float) ≤ 0 by decide) hCount
    rw [← hPlaces]
    constructor
    · intro hActions placed hPlaced
      obtain ⟨action, hAction, hSame⟩ := exists_action hPlaced
      exact hSame ▸ hActions action hAction
    · intro hAll action hAction
      obtain ⟨placed, hPlaced, hSame, -⟩ := exists_placed hAction
      exact hSame ▸ hAll placed hPlaced
  refine ⟨fun action hAction => ?_, hStarts, fun hDialect => hStarts.mpr ?_⟩
  · obtain ⟨placed, hPlaced, -, hDuration⟩ := exists_placed hAction
    rcases hDuration with hOwn | hFilled
    · rw [hOwn]
      exact placeLines_duration accepted_linesOf (by decide) placed hPlaced
    · rw [hFilled]
      exact ⟨hFinite, hFallback⟩
  · refine explicitStarts_unmarked accepted_linesOf fun line hLine target hWaiting => hDialect ?_
    exact dialect_of_waiting (hWaiting ▸ hLine)

theorem ofText_times_of_markers :
    (ofText 1 "3: (a) [2]\n-----waiting---- [10]\n0.5: (b)\n(c) [1]").dialect = .event ∧
      ∀ action ∈ (ofText 1 "3: (a) [2]\n-----waiting---- [10]\n0.5: (b)\n(c) [1]").actions,
        action.start.isFinite = true ∧ action.duration.isFinite = true ∧ 0 ≤ action.duration := by
  obtain ⟨hDurations, hStarts, -⟩ := @ofText_times 1 "3: (a) [2]\n-----waiting---- [10]\n0.5: (b)\n(c) [1]"
    (by decide) (by decide) (by decide)
  refine ⟨by decide, ?_⟩
  intro action hAction
  exact ⟨hStarts.mpr (by decide) action hAction, hDurations action hAction⟩

/-- A marker and an offset, each of them finite, lead to a start that is not, and the line is not refused. -/
theorem ofText_starts_past_range : (1 : Float).isFinite = true ∧ 0 ≤ (1 : Float) ∧
    (ofText 1 "-----waiting---- [1e308]\n1e308: (a)").diagnostics = [] ∧
    ∃ action ∈ (ofText 1 "-----waiting---- [1e308]\n1e308: (a)").actions, action.start.isFinite = false := by
  decide +kernel

end Plan

end PlanReplay

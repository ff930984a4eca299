import PlanReplay.Proofs.Plan.Dropped
import PlanReplay.Proofs.Plan.PrintedLine
import PlanReplay.Proofs.Plan.StartRank
import PlanReplay.Proofs.Plan.Times

/-!
# Plans that are printed and read again

The lines of a plan are printed in the order of its actions. Reading them gives the actions back that are printed in
parentheses, in the same order and with the same times in thousandths. A pause is printed in words, which say nothing
when they are read, and an action without a duration is printed without brackets, which stands for the fallback in a
temporal plan.

* `Plan.words_ofLines` — the names and the durations of a plan can be printed.
* `Plan.startRank_reread` — starts are read in the order in which they were printed.
* `Plan.placeLines_printed`, `Plan.dialectOf_printed` — what the lines of a printed plan place, and its dialect.
* `Plan.ofText_render` — a printed plan is read again.
* `Plan.ofText_render_not_identity` — what a printed plan does not give back.
-/

namespace PlanReplay

open Decimal Text

-- ---------------------------------------------------------------------------
-- The words of a plan
-- ---------------------------------------------------------------------------

namespace PlanLine

/-- The words of the line are such as can be printed. -/
def Spelled : PlanLine → Prop
  | .other | .waiting _ => True
  | .action a => ∀ word ∈ a.name :: a.args.map EntityId.text, IsPlanWord word

theorem spelled_of_parseAction {cs : List Char} {line : PlanLine} (h : parseAction cs = .ok line) : line.Spelled := by
  unfold parseAction at h
  split at h
  · cases h
    trivial
  · split at h
    · cases h
      trivial
    · rename_i hClose
      have hClosing := not_mem_of_splitAtFirst hClose
      split at h
      · cases h
        trivial
      · cases h
        trivial
      · cases h
      · rename_i verb args duration hWords _
        have hSpelled : ∀ word ∈ lower verb :: (args.map EntityId.ofName).map EntityId.text, IsPlanWord word := by
          have hAll : ∀ word ∈ verb :: args, IsPlanWord (lower word) ∧ IsPlanWord (EntityId.ofName word).text :=
            fun word hWord => isPlanWord_of_words hClosing (hWords ▸ hWord)
          rw [List.forall_mem_cons] at hAll ⊢
          rw [List.map_map, List.forall_mem_map]
          exact ⟨hAll.1.1, fun arg hArg => (hAll.2 arg hArg).2⟩
        split at h
        · cases h
          exact hSpelled
        · split at h
          · cases h
            exact hSpelled
          · cases h

/-- The words of a line that is read can be printed. -/
theorem spelled_of_parse {cs : List Char} {line : PlanLine} (h : parse cs = .ok line) : line.Spelled := by
  unfold parse at h
  split at h
  · split at h
    · cases h
      trivial
    · cases h
  · exact spelled_of_parseAction h

end PlanLine

namespace Plan

theorem spelled_readLine (raw : String) : (usable (readLine raw).2).Spelled := by
  unfold readLine
  dsimp only
  cases hReading : PlanLine.parse (trim raw).toList with
  | error fault => trivial
  | ok line => exact PlanLine.spelled_of_parse hReading

theorem accepted_readLine (raw : String) : (usable (readLine raw).2).Accepted := by
  unfold readLine
  dsimp only
  exact accepted_usable _

/-- The words of what a line places. -/
theorem placeLine_words {cursor : PlanCursor} {number : Nat} {line : PlanLine} {placed : PlacedAction}
    (hLine : line.Spelled) (h : (placeLine cursor number line).2 = some placed) :
    ∀ word ∈ placed.action.words, IsPlanWord word := by
  cases line with
  | other => cases h
  | waiting target =>
    obtain ⟨-, hPlaced⟩ := Option.ite_none_right_eq_some.mp h
    obtain rfl := Option.some.inj hPlaced
    exact List.forall_mem_singleton.mpr isPlanWord_wait
  | action a =>
    obtain rfl := Option.some.inj h
    exact hLine

variable {fallback : Float} {lines : List String}

/-- What the lines of a plan have placed, with a duration that they gave or the fallback. -/
theorem exists_placed_ofLines {a : TimedAction Float} (h : a ∈ (ofLines fallback lines).actions) :
    ∃ placed ∈ placeLines ⟨0, 0, 0⟩ 1 (usedLines lines), a.words = placed.action.words ∧
      (a.duration = placed.action.duration ∨ a.duration = fallback) := by
  rw [actions_ofLines] at h
  obtain ⟨placed, hPlaced, rfl⟩ := List.mem_map.mp ((sortByKey_perm _ _).mem_iff.mp h)
  refine ⟨placed, hPlaced, ?_⟩
  split
  · exact ⟨rfl, Or.inr rfl⟩
  · exact ⟨rfl, Or.inl rfl⟩

/-- The words of a plan can be printed, and its durations can be used. -/
theorem words_ofLines (hFallback : Lasting fallback) :
    ∀ a ∈ (ofLines fallback lines).actions, (∀ word ∈ a.words, IsPlanWord word) ∧ Lasting a.duration := by
  intro a ha
  obtain ⟨placed, hPlaced, hWords, hDuration⟩ := exists_placed_ofLines ha
  obtain ⟨line, hLine, here, n, hHere, hPlace⟩ := exists_placeLine (by decide) placed hPlaced
  obtain ⟨raw, -, rfl⟩ := List.mem_map.mp hLine
  constructor
  · rw [hWords]
    exact placeLine_words (spelled_readLine raw) hPlace
  · rcases hDuration with hOwn | hFilled
    · rw [hOwn]
      exact placeLine_duration hHere (accepted_readLine raw) hPlace
    · rw [hFilled]
      exact hFallback

-- ---------------------------------------------------------------------------
-- The order of starts
-- ---------------------------------------------------------------------------

/-- Starts that are read again are in the order in which they were printed. -/
theorem startRank_reread {x y : Float} (hx : x.isFinite = true) (hy : y.isFinite = true)
    (h : startRank x ≤ startRank y) : startRank (0 + reread x) ≤ startRank (0 + reread y) := by
  have hFinite := Double.finite_zero_add (readFloatChars_fixedText hx).2
  have hFinite' := Double.finite_zero_add (readFloatChars_fixedText hy).2
  rcases reread_order hx hy (value_le_of_startRank hx hy h) with hLess | hSame
  · by_contra hNot
    exact absurd hLess (not_lt.mpr (value_le_of_startRank hFinite' hFinite (not_le.mp hNot).le))
  · rw [hSame]

-- ---------------------------------------------------------------------------
-- Reading a printed plan
-- ---------------------------------------------------------------------------

/-- The actions that are printed as such. Pauses are printed in words. -/
def shown (p : Plan Float) : List (TimedAction Float) := p.actions.filter fun a => !a.isWait

/-- The line of `a` has been placed as `entry`. -/
structure PlacedAs (a : TimedAction Float) (entry : PlacedAction) : Prop where
  legible : a.Legible
  start : entry.action.start = 0 + reread a.start
  duration : entry.action.duration = if 0 < a.duration then reread a.duration else 0
  name : entry.action.name = a.name
  args : entry.action.args = a.args
  openEnded : entry.openEnded = !decide (0 < a.duration)

/-- Printed lines are placed in their order. No marker moves the base of the offsets. -/
theorem placeLines_printed {actions : List (TimedAction Float)} (h : ∀ a ∈ actions, a.isWait = true ∨ a.Legible) :
    ∀ {cursor : PlanCursor} {number : Nat}, cursor.base = 0 →
      List.Forall₂ PlacedAs (actions.filter fun a => !a.isWait)
        (placeLines cursor number (actions.map TimedAction.printed)) := by
  induction actions with
  | nil =>
    intro cursor number _
    exact .nil
  | cons a rest ih =>
    intro cursor number hBase
    rw [List.forall_mem_cons] at h
    rw [List.map_cons, placeLines_cons]
    cases hWait : a.isWait with
    | true =>
      rw [printed_of_wait hWait, List.filter_cons_of_neg (by simp [hWait])]
      exact ih h.2 hBase
    | false =>
      have hLegible := h.1.resolve_left (Bool.eq_false_iff.mp hWait)
      rw [printed_of_not_wait hWait, List.filter_cons_of_pos (by simp [hWait])]
      refine .cons ⟨hLegible, ?_, ?_, rfl, rfl, ?_⟩ (ih h.2 hBase)
      · exact congrArg (· + reread a.start) hBase
      · change (if 0 < a.duration then some (reread a.duration) else none).getD 0 = _
        split <;> rfl
      · change (if 0 < a.duration then some (reread a.duration) else none).isNone = _
        split <;> simp [*]

theorem mem_shown {p : Plan Float} {a : TimedAction Float} : a ∈ p.shown ↔ a ∈ p.actions ∧ a.isWait = false := by
  rw [shown, List.mem_filter, Bool.not_eq_true']

/-- Lines are temporal iff none is a marker and an action has brackets. -/
theorem dialectOf_eq_temporal_iff {lines : List PlanLine} {isEmpty : Bool} :
    dialectOf lines isEmpty = .temporal ↔
      (∀ target, .waiting target ∉ lines) ∧ ∃ a, .action a ∈ lines ∧ a.duration.isSome = true := by
  unfold dialectOf
  split
  · rename_i hMarker
    obtain ⟨line, hLine, hWaiting⟩ := List.any_eq_true.mp hMarker
    cases line with
    | waiting target => exact iff_of_false nofun fun h => h.1 target hLine
    | other | action a => cases hWaiting
  · rename_i hNoMarker
    have hUnmarked : ∀ target, .waiting target ∉ lines := fun target hLine =>
      hNoMarker (List.any_eq_true.mpr ⟨_, hLine, rfl⟩)
    split
    · rename_i hBrackets
      obtain ⟨line, hLine, hSome⟩ := List.any_eq_true.mp hBrackets
      cases line with
      | action a => exact iff_of_true rfl ⟨hUnmarked, a, hLine, hSome⟩
      | other | waiting target => cases hSome
    · rename_i hNoBrackets
      refine iff_of_false ?_ ?_
      · split
        · exact nofun
        · split <;> exact nofun
      · rintro ⟨-, a, hLine, hSome⟩
        exact hNoBrackets (List.any_eq_true.mpr ⟨_, hLine, hSome⟩)

/-- A printed plan is read as temporal iff any of its lines has brackets. -/
theorem dialectOf_printed (p : Plan Float) (isEmpty : Bool) :
    dialectOf (p.actions.map TimedAction.printed) isEmpty = .temporal ↔ ∃ a ∈ p.shown, 0 < a.duration := by
  rw [dialectOf_eq_temporal_iff]
  constructor
  · rintro ⟨-, act, hLine, hSome⟩
    obtain ⟨a, ha, hPrinted⟩ := List.mem_map.mp hLine
    cases hWait : a.isWait with
    | true =>
      rw [printed_of_wait hWait] at hPrinted
      cases hPrinted
    | false =>
      rw [printed_of_not_wait hWait] at hPrinted
      obtain rfl := PlanLine.action.inj hPrinted
      refine ⟨a, mem_shown.mpr ⟨ha, hWait⟩, ?_⟩
      by_contra hNot
      dsimp only at hSome
      rw [if_neg hNot] at hSome
      cases hSome
  · rintro ⟨a, ha, hPos⟩
    obtain ⟨hMem, hWait⟩ := mem_shown.mp ha
    constructor
    · intro target hLine
      obtain ⟨b, -, hPrinted⟩ := List.mem_map.mp hLine
      unfold TimedAction.printed at hPrinted
      split at hPrinted <;> cases hPrinted
    · refine ⟨_, List.mem_map.mpr ⟨a, hMem, printed_of_not_wait hWait⟩, ?_⟩
      dsimp only
      rw [if_pos hPos]
      rfl

/-- No printed line is faulty. -/
theorem diagnosticsFrom_printed {lines : List String} (h : ∀ raw ∈ lines, ∃ line, (readLine raw).2 = .ok line)
    (index : Nat) : diagnosticsFrom index lines = [] := by
  induction lines generalizing index with
  | nil => rfl
  | cons raw rest ih =>
    rw [List.forall_mem_cons] at h
    obtain ⟨line, hLine⟩ := h.1
    have hNone : diagnostic? (readLine raw, index) = none := by
      cases hReading : readLine raw with
      | mk text reading =>
        rw [hReading] at hLine
        obtain rfl : reading = .ok line := hLine
        rfl
    rw [diagnosticsFrom_cons, hNone, ih h.2]
    rfl

/-- What is printed in the order of the starts is placed in this order. -/
theorem placed_ascending {actions : List (TimedAction Float)} {entries : List PlacedAction}
    (h : List.Forall₂ PlacedAs actions entries)
    (hOrder : actions.Pairwise fun a b => startRank a.start ≤ startRank b.start) :
    entries.Pairwise fun a b => startRank a.action.start ≤ startRank b.action.start := by
  obtain ⟨hLength, hPlaced⟩ := List.forall₂_iff_get.mp h
  rw [List.pairwise_iff_getElem] at hOrder ⊢
  intro i j hi hj hLess
  have hFirst := hPlaced i (hLength ▸ hi) hi
  have hSecond := hPlaced j (hLength ▸ hj) hj
  change startRank (entries.get ⟨i, hi⟩).action.start ≤ startRank (entries.get ⟨j, hj⟩).action.start
  rw [hFirst.start, hSecond.start]
  exact startRank_reread hFirst.legible.start hSecond.legible.start (hOrder i j _ _ hLess)

/-- The action `b` is `a` as its line gives it back: with the same words, and with the same times in thousandths. A line
without brackets gives the duration `filled`. -/
structure GivenBack (filled : Float) (a b : TimedAction Float) : Prop where
  name : b.name = a.name
  args : b.args = a.args
  start : ∃ t, thousandths? a.start = some t ∧ thousandths? b.start = some t
  duration : if 0 < a.duration then ∃ t, thousandths? a.duration = some t ∧ thousandths? b.duration = some t
    else b.duration = filled

/-- The duration of a line without brackets, when a printed plan is read. -/
def filledDuration (fallback : Float) (p : Plan Float) : Float :=
  if p.shown.any (0 < ·.duration) then fallback else 0

/-- What is placed for an action gives it back, once the lines without brackets have their durations. -/
theorem givenBack_of_placed {p : Plan Float} {a : TimedAction Float} {entry : PlacedAction} (h : PlacedAs a entry)
    {dialect : Dialect} (hDialect : dialect = .temporal ↔ ∃ b ∈ p.shown, 0 < b.duration) (fallback : Float) :
    GivenBack (filledDuration fallback p) a
      (if entry.openEnded = true ∧ dialect = .temporal then { entry.action with duration := fallback }
        else entry.action) := by
  obtain ⟨t, hPrinted, -, hStart⟩ := thousandths_reread h.legible.start
  obtain ⟨d, hLength, hLasting, -⟩ := thousandths_reread h.legible.duration
  have hFilled : filledDuration fallback p = if dialect = .temporal then fallback else 0 := by
    unfold filledDuration
    simp only [hDialect, List.any_eq_true, decide_eq_true_eq]
  by_cases hPos : 0 < a.duration
  · have hBrackets : ¬ (entry.openEnded = true ∧ dialect = .temporal) := by
      rw [h.openEnded, decide_eq_true hPos]
      exact fun hOpen => Bool.false_ne_true hOpen.1
    rw [if_neg hBrackets]
    refine ⟨h.name, h.args, ⟨t, hPrinted, h.start ▸ hStart⟩, ?_⟩
    rw [if_pos hPos, h.duration, if_pos hPos]
    exact ⟨d, hLength, hLasting⟩
  · have hOpen : entry.openEnded = true := by
      rw [h.openEnded, decide_eq_false hPos]
      rfl
    rw [hFilled]
    by_cases hTemporal : dialect = .temporal
    · rw [if_pos hTemporal, if_pos ⟨hOpen, hTemporal⟩]
      refine ⟨h.name, h.args, ⟨t, hPrinted, h.start ▸ hStart⟩, ?_⟩
      rw [if_neg hPos]
    · rw [if_neg hTemporal, if_neg fun hBoth => hTemporal hBoth.2]
      refine ⟨h.name, h.args, ⟨t, hPrinted, h.start ▸ hStart⟩, ?_⟩
      rw [if_neg hPos, h.duration, if_neg hPos]

/-- A printed plan whose actions are legible and in the order of their starts is read again. -/
theorem ofText_render_of_legible {p : Plan Float} (hLegible : ∀ a ∈ p.shown, a.Legible)
    (hOrder : p.actions.Pairwise fun a b => startRank a.start ≤ startRank b.start) (fallback : Float) :
    (ofText fallback p.render).diagnostics = [] ∧
      List.Forall₂ (GivenBack (filledDuration fallback p)) p.shown (ofText fallback p.render).actions := by
  have hLines : ∀ a ∈ p.actions, a.isWait = true ∨ a.Legible := by
    intro a ha
    cases hWait : a.isWait with
    | true => exact Or.inl rfl
    | false => exact Or.inr (hLegible a (mem_shown.mpr ⟨ha, hWait⟩))
  unfold ofText
  rw [lines_render hLines, diagnostics_ofLines]
  constructor
  · refine diagnosticsFrom_printed ?_ 0
    rw [List.forall_mem_map]
    intro a ha
    refine ⟨a.printed, ?_⟩
    rw [readLine_text (hLines a ha)]
  · have hUsed : usedLines (p.actions.map TimedAction.text) = p.actions.map TimedAction.printed := by
      unfold usedLines
      rw [List.map_map]
      refine List.map_congr_left fun a ha => ?_
      rw [Function.comp_apply, readLine_text (hLines a ha)]
      rfl
    have hPlaced : List.Forall₂ PlacedAs p.shown (placeLines ⟨0, 0, 0⟩ 1 (p.actions.map TimedAction.printed)) :=
      placeLines_printed hLines rfl
    have hAscending := placed_ascending hPlaced (hOrder.filter _)
    rw [actions_ofLines, hUsed]
    generalize placeLines ⟨0, 0, 0⟩ 1 (p.actions.map TimedAction.printed) = entries at hPlaced hAscending ⊢
    have hDialect := dialectOf_printed p entries.isEmpty
    generalize dialectOf (p.actions.map TimedAction.printed) entries.isEmpty = dialect at hDialect ⊢
    unfold sortByStart
    rw [sortByKey_eq_self, List.forall₂_map_right_iff]
    · exact hPlaced.imp fun a entry h => givenBack_of_placed h hDialect fallback
    · rw [List.pairwise_map]
      refine hAscending.imp fun {a b} hLe => ?_
      split <;> split <;> exact hLe

/-- **A printed plan is read again** without diagnostics, as its actions that are no pauses, in their order. Names and
arguments are the same; starts, and durations above zero, are the same in thousandths. An action that takes no time has
the fallback when any action of the printed plan takes time, and no duration otherwise. Starts must not be so large that
they are printed as infinite, and no word may hold the marker of pauses. -/
theorem ofText_render (hFinite : fallback.isFinite = true) (hPos : 0 < fallback)
    (hStarts : ∀ a ∈ (ofLines fallback lines).shown, a.start.isFinite = true)
    (hUnmarked : ∀ a ∈ (ofLines fallback lines).shown, ∀ word ∈ a.words,
      occursIn PlanLine.waitingMarker word.toList = false) :
    (ofText fallback (ofLines fallback lines).render).diagnostics = [] ∧
      List.Forall₂ (GivenBack (filledDuration fallback (ofLines fallback lines))) (ofLines fallback lines).shown
        (ofText fallback (ofLines fallback lines).render).actions := by
  refine ofText_render_of_legible ?_ (sortByKey_ascending _ _) fallback
  intro a ha
  obtain ⟨hWords, hLasting⟩ := words_ofLines ⟨hFinite, Double.le_of_lt hPos⟩ a (mem_shown.mp ha).1
  refine ⟨hStarts a ha, hLasting.1, hWords, fun word hWord => ?_⟩
  rw [← splitAtFirst_eq_none_iff, ← Option.isSome_eq_false_iff.trans Option.isNone_iff_eq_none]
  exact hUnmarked a ha word hWord

/-- A plan with a marker, a start below zero, an action that takes no time and one that is called `wait`. -/
theorem ofText_render_of_markers :
    let p := ofLines 1 ["-----waiting---- [2.0005]", "0.1: (Pick B1) [1.5]", "-1: (drop b1 room-a)", "0: (wait c)"]
    p.shown.map (·.name) = ["drop", "pick"] ∧ (ofText 1 p.render).diagnostics = [] ∧
      List.Forall₂ (GivenBack 1) p.shown (ofText 1 p.render).actions := by
  intro p
  obtain ⟨hNone, hBack⟩ := @ofText_render 1
    ["-----waiting---- [2.0005]", "0.1: (Pick B1) [1.5]", "-1: (drop b1 room-a)", "0: (wait c)"] (by decide) (by decide)
    (by decide) (by decide)
  have hFilled : filledDuration 1 p = 1 := by decide
  rw [hFilled] at hBack
  exact ⟨by decide, hNone, hBack⟩

/-- What a printed plan does not give back. The pause is lost, and `b` takes the fallback. A name that holds the marker,
a start that is infinite and a duration that is infinite are printed as lines that are faulty. -/
theorem ofText_render_not_identity :
    (ofText 1 "-----waiting---- [7]\n0: (a) [2]\n0: (b)").actions.map (fun a => (a.name, a.duration)) =
        [("wait", 7), ("a", 2), ("b", 0)] ∧
      (ofText 1 (ofText 1 "-----waiting---- [7]\n0: (a) [2]\n0: (b)").render).actions.map
          (fun a => (a.name, a.duration)) = [("a", 2), ("b", 1)] ∧
      (ofText 1 (ofText 1 "0: (-----WAITING---- a)").render).diagnostics ≠ [] ∧
      (ofText 1 (ofText 1 "-----waiting---- [-1e308]\n-1e308: (a)").render).diagnostics ≠ [] ∧
      (ofText (1 / 0) (ofText (1 / 0) "0: (a)\n1: (b) [2]").render).diagnostics ≠ [] := by
  decide +kernel

end Plan

end PlanReplay

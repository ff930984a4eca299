import Mathlib.Data.List.Basic
import PlanReplay.Plan.Normal

/-!
# Lines that are dropped

A line that says nothing, or that is faulty, leaves no trace but its own diagnostic: it moves neither the place
of the next action nor the base of the offsets, and it takes no part in the choice of the dialect.

* `Plan.usedLines` — what the lines of a text say. The actions and the dialect of a plan depend on nothing else.
* `Plan.diagnosticsFrom` — the diagnostics of the lines from a number on; each is about its own line.
* `Plan.ofLines_set_dropped` — a dropped line can be blanked.
-/

namespace PlanReplay.Plan

open Text

variable {fallback : Float}

-- ---------------------------------------------------------------------------
-- Actions and dialect
-- ---------------------------------------------------------------------------

/-- What lines say; a faulty one says nothing. -/
def usedLines (lines : List String) : List PlanLine := lines.map fun raw => usable (readLine raw).2

/-- Lines that say the same make the same plan, but for the diagnostics. -/
theorem ofLines_congr (fallback : Float) {lines lines' : List String} (h : usedLines lines = usedLines lines') :
    (ofLines fallback lines).dialect = (ofLines fallback lines').dialect ∧
      (ofLines fallback lines).actions = (ofLines fallback lines').actions := by
  have hUsed : (lines.map readLine).map (fun reading => usable reading.2) =
      (lines'.map readLine).map fun reading => usable reading.2 := by
    rw [List.map_map, List.map_map]
    exact h
  unfold ofLines
  dsimp only
  rw [hUsed]
  exact ⟨rfl, rfl⟩

/-- The actions of a plan, from what its lines say. -/
theorem actions_ofLines (lines : List String) :
    (ofLines fallback lines).actions = sortByStart ((placeLines ⟨0, 0, 0⟩ 1 (usedLines lines)).map fun entry =>
      if entry.openEnded = true ∧
          dialectOf (usedLines lines) (placeLines ⟨0, 0, 0⟩ 1 (usedLines lines)).isEmpty = .temporal then
        { entry.action with duration := fallback }
      else entry.action) := by
  have hUsed : (lines.map readLine).map (fun reading => usable reading.2) = usedLines lines := List.map_map
  unfold ofLines
  dsimp only
  rw [hUsed]

theorem usable_empty : usable (readLine "").2 = .other := by decide

/-- A line that says nothing can be blanked, and the lines say the same. -/
theorem usedLines_set {lines : List String} {i : Nat} {raw : String} (hLine : lines[i]? = some raw)
    (hSilent : usable (readLine raw).2 = .other) : usedLines (lines.set i "") = usedLines lines := by
  have hSame : (usedLines lines)[i]? = some (usable (readLine "").2) := by
    rw [usedLines, List.getElem?_map, hLine, Option.map_some, hSilent, usable_empty]
  rw [usedLines, List.map_set]
  obtain ⟨hInside, hHere⟩ := List.getElem?_eq_some_iff.mp hSame
  rw [← hHere]
  exact List.set_getElem_self hInside

-- ---------------------------------------------------------------------------
-- Diagnostics
-- ---------------------------------------------------------------------------

/-- The diagnostic of a line, if the line is faulty. -/
def diagnostic? : (String × Except LineFault PlanLine) × Nat → Option Diagnostic
  | ((text, .error fault), index) => some ⟨fault, index + 1, text⟩
  | ((_, .ok _), _) => none

/-- The diagnostics of lines of which the first one stands after `index` others. -/
def diagnosticsFrom (index : Nat) (lines : List String) : List Diagnostic :=
  ((lines.map readLine).zipIdx index).filterMap diagnostic?

theorem diagnostics_ofLines (lines : List String) : (ofLines fallback lines).diagnostics = diagnosticsFrom 0 lines := by
  unfold ofLines diagnosticsFrom
  dsimp only
  congr 1
  funext ⟨⟨text, reading⟩, index⟩
  cases reading <;> rfl

theorem diagnosticsFrom_append (index : Nat) (before after : List String) :
    diagnosticsFrom index (before ++ after) =
      diagnosticsFrom index before ++ diagnosticsFrom (index + before.length) after := by
  unfold diagnosticsFrom
  rw [List.map_append, List.zipIdx_append, List.filterMap_append, List.length_map]

theorem diagnosticsFrom_cons (index : Nat) (raw : String) (rest : List String) :
    diagnosticsFrom index (raw :: rest) =
      (diagnostic? (readLine raw, index)).toList ++ diagnosticsFrom (index + 1) rest := by
  unfold diagnosticsFrom
  rw [List.map_cons, List.zipIdx_cons, List.filterMap_cons]
  cases diagnostic? (readLine raw, index) <;> rfl

theorem line_of_diagnostic? {entry : (String × Except LineFault PlanLine) × Nat} {d : Diagnostic}
    (h : diagnostic? entry = some d) : d.line = entry.2 + 1 := by
  obtain ⟨⟨text, reading⟩, index⟩ := entry
  cases reading with
  | error fault =>
    cases h
    rfl
  | ok line => cases h

/-- Diagnostics are about the lines they come from. -/
theorem line_of_mem_diagnosticsFrom {index : Nat} {lines : List String} {d : Diagnostic}
    (h : d ∈ diagnosticsFrom index lines) : index < d.line ∧ d.line ≤ index + lines.length := by
  obtain ⟨⟨reading, place⟩, hEntry, hDiagnostic⟩ := List.mem_filterMap.mp h
  obtain ⟨hFirst, hLast, -⟩ := List.mem_zipIdx hEntry
  rw [List.length_map] at hLast
  rw [line_of_diagnostic? hDiagnostic]
  exact ⟨by omega, by omega⟩

/-- The diagnostic of a line among those of all lines: before it stand those of earlier lines, after it those of
later ones. -/
theorem diagnosticsFrom_split {index : Nat} {raw : String} {before after : List String} :
    (diagnosticsFrom index (before ++ raw :: after)).filter (fun d => d.line ≠ index + before.length + 1) =
        diagnosticsFrom index before ++ diagnosticsFrom (index + before.length + 1) after ∧
      (diagnosticsFrom index (before ++ raw :: after)).filter (fun d => d.line = index + before.length + 1) =
        (diagnostic? (readLine raw, index + before.length)).toList := by
  have hBefore : ∀ d ∈ diagnosticsFrom index before, ¬ d.line = index + before.length + 1 := by
    intro d hd
    have hLine := line_of_mem_diagnosticsFrom hd
    omega
  have hHere : ∀ d ∈ (diagnostic? (readLine raw, index + before.length)).toList,
      d.line = index + before.length + 1 := by
    intro d hd
    exact line_of_diagnostic? (Option.mem_toList.mp hd)
  have hAfter : ∀ d ∈ diagnosticsFrom (index + before.length + 1) after,
      ¬ d.line = index + before.length + 1 := by
    intro d hd
    have hLine := line_of_mem_diagnosticsFrom hd
    omega
  rw [diagnosticsFrom_append, diagnosticsFrom_cons]
  simp only [List.filter_append]
  constructor
  · rw [List.filter_eq_self.mpr fun d hd => decide_eq_true (hBefore d hd),
      List.filter_eq_nil_iff.mpr fun d hd hOther => absurd (hHere d hd) (of_decide_eq_true hOther),
      List.filter_eq_self.mpr fun d hd => decide_eq_true (hAfter d hd), List.nil_append]
  · rw [List.filter_eq_nil_iff.mpr fun d hd hOwn => hBefore d hd (of_decide_eq_true hOwn),
      List.filter_eq_self.mpr fun d hd => decide_eq_true (hHere d hd),
      List.filter_eq_nil_iff.mpr fun d hd hOwn => hAfter d hd (of_decide_eq_true hOwn), List.nil_append,
      List.append_nil]

-- ---------------------------------------------------------------------------
-- Blanking a line
-- ---------------------------------------------------------------------------

/-- **A dropped line affects nothing else.** Where a line says nothing or is faulty, the plan without its text has
the same dialect and the same actions, and of the diagnostics only that of the line is gone; there is one exactly
when the line is faulty. -/
theorem ofLines_set_dropped {lines : List String} {i : Nat} {raw : String} (hLine : lines[i]? = some raw)
    (hDropped : PlanLine.parse (trim raw).toList = .ok .other ∨
      ∃ fault, PlanLine.parse (trim raw).toList = .error fault) :
    (ofLines fallback (lines.set i "")).dialect = (ofLines fallback lines).dialect ∧
      (ofLines fallback (lines.set i "")).actions = (ofLines fallback lines).actions ∧
      (ofLines fallback (lines.set i "")).diagnostics =
        (ofLines fallback lines).diagnostics.filter (fun d => d.line ≠ i + 1) ∧
      (ofLines fallback lines).diagnostics.filter (fun d => d.line = i + 1) =
        match PlanLine.parse (trim raw).toList with
        | .error fault => [⟨fault, i + 1, trim raw⟩]
        | .ok _ => [] := by
  have hSilent : usable (readLine raw).2 = .other := by
    unfold readLine
    dsimp only
    rcases hDropped with hOther | ⟨fault, hFault⟩
    · rw [hOther]
      rfl
    · rw [hFault]
      rfl
  obtain ⟨hDialect, hActions⟩ := ofLines_congr fallback (usedLines_set hLine hSilent)
  refine ⟨hDialect, hActions, ?_⟩
  obtain ⟨hInside, hHere⟩ := List.getElem?_eq_some_iff.mp hLine
  obtain ⟨before, after, hLines, hLength⟩ : ∃ before after, lines = before ++ raw :: after ∧ before.length = i :=
    ⟨lines.take i, lines.drop (i + 1), by rw [← hHere, List.getElem_cons_drop, List.take_append_drop],
      List.length_take_of_le (Nat.le_of_lt hInside)⟩
  have hBlanked : lines.set i "" = before ++ "" :: after := by
    rw [hLines, ← hLength, List.set_append_right _ _ (Nat.le_refl _), Nat.sub_self, List.set_cons_zero]
  obtain ⟨hOthers, hOwn⟩ := @diagnosticsFrom_split 0 raw before after
  rw [Nat.zero_add, hLength] at hOthers hOwn
  rw [diagnostics_ofLines, diagnostics_ofLines, hBlanked, hLines]
  constructor
  · rw [hOthers, diagnosticsFrom_append, diagnosticsFrom_cons, hLength, Nat.zero_add]
    rfl
  · rw [hOwn]
    unfold readLine
    dsimp only
    cases PlanLine.parse (trim raw).toList <;> rfl

/-- A marker without a usable target, between an action with an offset and one without a time. -/
theorem ofLines_set_dropped_of_marker :
    let lines := ["2: (a)", "-----waiting---- [soon]", "(b) [3]", "; cost"]
    (ofLines 1 (lines.set 1 "")).actions = (ofLines 1 lines).actions ∧
      (ofLines 1 lines).diagnostics =
        [⟨.malformedWaitTarget "[soon]", 2, "-----waiting---- [soon]"⟩] ∧
      (ofLines 1 (lines.set 1 "")).diagnostics = [] := by
  intro lines
  obtain ⟨-, hActions, hDiagnostics, -⟩ := @ofLines_set_dropped 1 lines 1 "-----waiting---- [soon]" rfl
    (Or.inr ⟨.malformedWaitTarget "[soon]", by decide⟩)
  refine ⟨hActions, by decide, ?_⟩
  rw [hDiagnostics]
  decide

end PlanReplay.Plan

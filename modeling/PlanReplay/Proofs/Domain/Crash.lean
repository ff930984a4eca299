import PlanReplay.Domain.Table
import PlanReplay.Proofs.Exact
import PlanReplay.Proofs.World.Structure

/-!
# Actions over which the program ends

An elevator that moves by one floor counts on from the number of a floor, and this is the only operation of an action
that may have no result. Which actions the program ends over is said here once.

* `Elevator.Table.effects_crash_iff` — the actions of elevators that have no result.
* `ActionTable.dispatch_crash_iff` — the program ends over a dispatch iff it is such an action of declared entities.
* `ActionTable.dispatch_robot_not_crashed`, `ActionTable.dispatch_exact_not_crashed` — it never does over the action of
  a robot, and never where no sum overflows.
-/

namespace PlanReplay

section

variable {α : Type} [Scalar α] {w : World α} {crash : Crash}

namespace Elevator.Table

variable {t : Table α}

/-- A move by one floor has no result iff there is a current number and the next one is out of range. -/
theorem moveNext_crash_iff {direction : Direction} {elevator : EntityId} :
    t.moveNext w direction elevator = .error (.crashed crash) ↔
      ∃ current, t.currentIndex? w elevator = some current ∧ Scalar.fits α (current + direction.step) = false ∧
        crash = .floorOverflow elevator current := by
  unfold moveNext
  cases hCurrent : t.currentIndex? w elevator with
  | none => simp
  | some current =>
    simp only [Option.some.injEq, exists_eq_left']
    cases hFits : Scalar.fits α (current + direction.step) with
    | false => simp [eq_comm]
    | true =>
      simp only [Bool.not_true, Bool.false_eq_true, if_false, reduceCtorEq, false_and, iff_false]
      split <;> simp

/-- The only actions of elevators without a result are moves by one floor from a number that has no next one. -/
theorem effects_crash_iff {action : Action} :
    t.effects w action = .error (.crashed crash) ↔
      ∃ direction elevator current, action = .move direction elevator none ∧
        t.currentIndex? w elevator = some current ∧ Scalar.fits α (current + direction.step) = false ∧
        crash = .floorOverflow elevator current := by
  constructor
  · intro h
    cases action with
    | load person elevator floor | unload person elevator floor | reached person floor =>
      exact absurd h (refusing_ne_crashed _ crash)
    | move direction elevator floors =>
      cases floors with
      | some ends => exact absurd h (refusing_ne_crashed _ crash)
      | none =>
        obtain ⟨current, hOverflow⟩ := moveNext_crash_iff.mp h
        exact ⟨direction, elevator, current, rfl, hOverflow⟩
  · rintro ⟨direction, elevator, current, rfl, hOverflow⟩
    exact moveNext_crash_iff.mpr ⟨current, hOverflow⟩

end Elevator.Table

/-- **Crashes of dispatches.** The program ends over a dispatch iff a table of elevators is given an action of declared
entities that has no result. -/
theorem ActionTable.dispatch_crash_iff {t : ActionTable α} {action : DomainAction} {timed : TimedAction α} {clock : α} :
    t.dispatch action timed w clock = .error (.crashed crash) ↔
      ∃ table act, t = .elevator table ∧ action = .elevator act ∧ (∀ id ∈ act.referenced, w.contains id = true) ∧
        table.effects w act = .error (.crashed crash) := by
  have hNone : ∀ {referenced : List EntityId} {found : Except (Violation α) (List (Effect α))},
      w.attempt referenced (refusing found) ≠ .error (.crashed crash) := fun hCrash =>
    refusing_ne_crashed _ _ (World.attempt_crash_iff.mp hCrash).2
  constructor
  · intro h
    unfold dispatch at h
    split at h
    · cases h
    · rename_i table act
      split at h
      · cases h
      · rename_i hAttempt
        cases h
        obtain ⟨hKnown, hEffects⟩ := World.attempt_crash_iff.mp hAttempt
        exact ⟨table, act, rfl, rfl, hKnown, hEffects⟩
    · split at h
      · cases h
      · rename_i hAttempt
        cases h
        exact absurd hAttempt hNone
    · split at h
      · cases h
      · rename_i hAttempt
        cases h
        exact absurd hAttempt hNone
    all_goals cases h
  · rintro ⟨table, act, rfl, rfl, hKnown, hEffects⟩
    unfold dispatch
    dsimp only
    rw [World.attempt_crash_iff.mpr ⟨hKnown, hEffects⟩]

/-- The program ends over no action of a robot. -/
theorem ActionTable.dispatch_robot_not_crashed {t : ActionTable α} {action : Robot.Action} {timed : TimedAction α}
    {clock : α} : t.dispatch (.robot action) timed w clock ≠ .error (.crashed crash) := by
  rw [ne_eq, dispatch_crash_iff]
  rintro ⟨_, _, -, hAction, -⟩
  cases hAction

end

/-- Where no sum overflows, the program ends over no dispatch. -/
theorem ActionTable.dispatch_exact_not_crashed {exp : ℚ → ℚ} {t : ActionTable (Exact exp)} {action : DomainAction}
    {timed : TimedAction (Exact exp)} {w : World (Exact exp)} {clock : Exact exp} {crash : Crash} :
    t.dispatch action timed w clock ≠ .error (.crashed crash) := by
  rw [ne_eq, dispatch_crash_iff]
  rintro ⟨table, act, -, -, -, hEffects⟩
  obtain ⟨_, _, _, -, -, hOverflows, -⟩ := Elevator.Table.effects_crash_iff.mp hEffects
  cases hOverflows

end PlanReplay

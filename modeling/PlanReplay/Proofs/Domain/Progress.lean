import Mathlib.Algebra.Order.Field.Basic
import Mathlib.Tactic.FieldSimp
import Mathlib.Tactic.Linarith
import Mathlib.Tactic.Ring
import PlanReplay.Domain.Transition
import PlanReplay.Proofs.Exact

/-!
# Progress in exact numbers

A transition that goes on for a time has that much less time left, or is finished and leaves the rest of the
time over; how it counts its progress, by time or by distance, makes no difference.

* `Progress.remaining_begin` — at first the whole time of the transition is left.
* `Progress.advance_finished`, `Progress.advance_open` — what a time does to a progress.
-/

namespace PlanReplay

namespace Progress

variable {exp : ℚ → ℚ} {p : Progress (Exact exp)} {dt : Exact exp}

/-- What is left is above a time that is not negative only if it is the time to the end. -/
theorem lt_of_lt_nonNegative {x : Exact exp} (hTime : 0 ≤ dt) (hShort : dt < Scalar.nonNegative x) : dt < x := by
  rcases lt_max_iff.mp hShort with hLeft | hNegative
  · exact hLeft
  · exact absurd hNegative (not_lt.mpr hTime)

theorem nonNegative_of_le {x : Exact exp} (hPositive : 0 ≤ x) : Scalar.nonNegative x = x :=
  max_eq_left hPositive

theorem remaining_nonneg (p : Progress (Exact exp)) : 0 ≤ p.remaining := by
  unfold remaining
  split
  · exact le_max_right _ _
  · split
    · exact le_refl _
    · exact le_max_right _ _

/-- At first the whole time of a transition is left. -/
theorem remaining_begin (completion : Completion (Exact exp)) :
    (begin completion).remaining = completion.nominal := by
  cases completion with
  | elapsed duration =>
    unfold remaining begin Completion.nominal
    exact congrArg Scalar.nonNegative (sub_zero duration)
  | distance threshold speed =>
    unfold remaining begin Completion.nominal
    dsimp only
    rw [show threshold - 0 = threshold from sub_zero threshold]
    by_cases hSpeed : speed ≤ 0
    · rw [if_pos hSpeed, if_neg (not_lt.mpr hSpeed)]
    · rw [if_neg hSpeed, if_pos (not_le.mp hSpeed)]

/-- A time that suffices finishes the transition, and what is not needed is left over. -/
theorem advance_finished (hTime : 0 ≤ dt) (hEnough : p.remaining ≤ dt) :
    (p.advance dt).1.isComplete = true ∧ (p.advance dt).2 = dt - p.remaining := by
  unfold advance
  rw [nonNegative_of_le hTime]
  dsimp only
  rw [if_pos hEnough]
  refine ⟨?_, rfl⟩
  unfold remaining isComplete
  cases hCompletion : p.completion with
  | elapsed duration =>
    dsimp only
    rw [decide_eq_true_iff]
    have hNeeded : duration - p.elapsed ≤ Scalar.nonNegative (duration - p.elapsed) := le_max_left _ _
    linarith
  | distance threshold speed =>
    dsimp only
    rw [Bool.or_eq_true, decide_eq_true_iff, decide_eq_true_iff]
    exact Or.inr (le_refl threshold)

/-- A time that does not suffice is taken off what is left. -/
theorem advance_open (hTime : 0 ≤ dt) (hShort : dt < p.remaining) :
    (p.advance dt).1.isComplete = false ∧ (p.advance dt).1.remaining = p.remaining - dt := by
  obtain ⟨completion, elapsed, distance⟩ := p
  unfold advance
  rw [nonNegative_of_le hTime]
  dsimp only
  rw [if_neg (not_le.mpr hShort)]
  cases completion with
  | elapsed duration =>
    have hLeft : dt < duration - elapsed := lt_of_lt_nonNegative hTime hShort
    unfold isComplete remaining
    dsimp only
    rw [decide_eq_false_iff_not, not_le, nonNegative_of_le, nonNegative_of_le]
    · constructor <;> linarith
    · linarith
    · linarith
  | distance threshold speed =>
    unfold isComplete remaining
    unfold remaining at hShort
    dsimp only at hShort ⊢
    by_cases hSpeed : speed ≤ 0
    -- without a speed nothing is left
    · rw [if_pos hSpeed] at hShort
      exact absurd hShort (not_lt.mpr hTime)
    · rw [if_neg hSpeed] at hShort
      rw [if_neg hSpeed, if_neg hSpeed]
      have hPositive : 0 < speed := not_le.mp hSpeed
      have hLeft : dt < (threshold - distance) / speed := lt_of_lt_nonNegative hTime hShort
      have hAhead : dt * speed < threshold - distance := (lt_div_iff₀ hPositive).mp hLeft
      -- the distance covered in the time takes the time off
      have hRest : (threshold - (distance + speed * dt)) / speed = (threshold - distance) / speed - dt := by
        field_simp
        ring
      constructor
      · rw [Bool.or_eq_false_iff, decide_eq_false_iff_not, decide_eq_false_iff_not]
        refine ⟨hSpeed, ?_⟩
        rw [not_le]
        linarith [mul_comm speed dt]
      · rw [hRest, nonNegative_of_le, nonNegative_of_le]
        · linarith
        · linarith

/-- A transition is finished by a time that suffices, and by no other. -/
theorem advance_isComplete (hTime : 0 ≤ dt) : (p.advance dt).1.isComplete = true ↔ p.remaining ≤ dt := by
  constructor
  · intro hDone
    by_contra hShort
    rw [(advance_open hTime (not_le.mp hShort)).1] at hDone
    cases hDone
  · intro hEnough
    exact (advance_finished hTime hEnough).1

theorem advance_isOpen (hTime : 0 ≤ dt) : (p.advance dt).1.isComplete = false ↔ dt < p.remaining := by
  rw [← not_le, ← advance_isComplete hTime, Bool.not_eq_true]

end Progress

end PlanReplay

import PlanReplay.Proofs.Double.AddBack
import PlanReplay.Proofs.Replay.Turn

/-!
# Enough time

A transition that is handed the time that it has left counts as finished, and so the timeline drops it. On doubles this
has an exception: where a transition ends after a time, the time that is left is rounded and added to the time that has
passed, and the sum may fall short of the duration. Then the transition goes on, and the rest of the time is gone. It is
finished by the next time that suffices.

* `Progress.MissesEnd` — the transitions for which the time that is left does not suffice.
* `Progress.Tracks`, `Progress.tracks_after` — what holds of a transition whatever times it is handed.
* `Progress.enough_time` — what the time that is left does to a transition and to the timeline on which it runs.
-/

namespace PlanReplay

open Double (FallsShort value parts)

variable {α : Type}

/-- Whether the parameters are numbers and not infinite. -/
def Completion.IsFinite : Completion Float → Prop
  | .elapsed duration => duration.isFinite = true
  | .distance threshold speed => threshold.isFinite = true ∧ speed.isFinite = true

namespace Progress

-- ---------------------------------------------------------------------------
-- Times one after the other
-- ---------------------------------------------------------------------------

section

variable [Scalar α]

/-- The progress of a transition that has been handed some times. -/
def after (completion : Completion α) (times : List α) : Progress α :=
  times.foldl (fun p dt => (p.advance dt).1) (begin completion)

theorem completion_advance (p : Progress α) (dt : α) : (p.advance dt).1.completion = p.completion := by
  unfold advance
  dsimp only
  split <;> rfl

end

variable {p : Progress Float} {completion : Completion Float} {dt : Float}

theorem zero_le_remaining (p : Progress Float) : 0 ≤ p.remaining := by
  unfold remaining
  split
  · exact Double.zero_le_nonNegative _
  · split
    · exact Double.le_refl_of_finite rfl
    · exact Double.zero_le_nonNegative _

/-- What all times keep: when the transition counts as finished, and that no time is taken back. -/
structure Tracks (completion : Completion Float) (p : Progress Float) : Prop where
  completion_eq : p.completion = completion
  forward : 0 ≤ p.elapsed

theorem tracks_begin (completion : Completion Float) : Tracks completion (begin completion) :=
  ⟨rfl, Double.le_refl_of_finite rfl⟩

theorem Tracks.advance (h : Tracks completion p) (dt : Float) : Tracks completion (p.advance dt).1 := by
  refine ⟨(completion_advance p dt).trans h.completion_eq, ?_⟩
  unfold Progress.advance
  dsimp only
  split
  · exact Double.le_add_of_le h.forward h.forward (zero_le_remaining p)
  · exact Double.le_add_of_le h.forward h.forward (Double.zero_le_nonNegative dt)

theorem tracks_after (completion : Completion Float) (times : List Float) :
    Tracks completion (after completion times) := by
  refine List.foldlRecOn times _ (tracks_begin completion) ?_
  intro p hTracks dt _
  exact hTracks.advance dt

-- ---------------------------------------------------------------------------
-- The time that is left
-- ---------------------------------------------------------------------------

/-- The time that is left does not lead to the end: added to the time that has passed, it falls short of the duration. -/
def MissesEnd (p : Progress Float) : Prop :=
  ∃ duration, p.completion = .elapsed duration ∧ FallsShort (value (parts duration)) (value (parts p.elapsed))

/-- A time that suffices is used as far as it is needed. -/
theorem elapsed_advance (hEnough : p.remaining ≤ dt) : (p.advance dt).1.elapsed = p.elapsed + p.remaining := by
  unfold advance
  dsimp only
  rw [if_pos (Double.le_nonNegative hEnough)]

theorem remaining_of_elapsed {duration : Float} (h : p.completion = .elapsed duration) :
    p.remaining = Scalar.nonNegative (duration - p.elapsed) := by
  unfold remaining
  rw [h]

/-- The time that is left, added to the time that has passed, reaches the duration, or it falls short of it. -/
theorem elapsed_cases {duration elapsed : Float} (hDuration : duration.isFinite = true) (hForward : 0 ≤ elapsed) :
    duration ≤ elapsed + Scalar.nonNegative (duration - elapsed) ∧
        ¬ FallsShort (value (parts duration)) (value (parts elapsed)) ∨
      ¬ duration ≤ elapsed + Scalar.nonNegative (duration - elapsed) ∧
        FallsShort (value (parts duration)) (value (parts elapsed)) ∧
        ¬ FallsShort (value (parts duration)) (value (parts (elapsed + Scalar.nonNegative (duration - elapsed)))) := by
  by_cases hReached : duration ≤ elapsed
  · exact Or.inl ⟨Double.le_add_of_le hReached hForward (Double.zero_le_nonNegative _),
      Double.not_fallsShort_of_le hDuration hForward hReached⟩
  · obtain hElapsed | hElapsed := Double.finite_or_largest hForward
    · have hLess : elapsed < duration := by
        by_contra hNotLess
        exact hReached ((Double.not_lt_iff_le hDuration hElapsed).mp hNotLess)
      have hSame : Scalar.nonNegative (duration - elapsed) = duration - elapsed := by
        obtain ⟨-, hSame⟩ | ⟨hNotPos, -⟩ := Double.nonNegative_cases (duration - elapsed)
        · exact hSame
        · exact absurd (Double.zero_lt_sub hDuration hForward hElapsed hLess) hNotPos
      rw [hSame]
      refine (Double.add_sub_cases hDuration hForward hElapsed hLess).imp_right ?_
      rintro ⟨hFinite, hShort, hFalls, hThen⟩
      exact ⟨fun hLe => (Double.not_lt_iff_le hDuration hFinite).mpr hLe hShort, hFalls, hThen⟩
    · exact absurd (Double.le_largest (Double.isNaN_of_finite hDuration) hElapsed) hReached

variable (hFinite : completion.IsFinite) (hTracks : Tracks completion p) (hEnough : p.remaining ≤ dt)

include hFinite hTracks hEnough

/-- A transition that is handed the time that it has left is finished, unless this misses the end. -/
theorem isComplete_advance : (p.advance dt).1.isComplete = true ↔ ¬ p.MissesEnd := by
  obtain ⟨hCompletion, hForward⟩ := hTracks
  cases completion with
  | elapsed duration =>
    have hMisses : p.MissesEnd ↔ FallsShort (value (parts duration)) (value (parts p.elapsed)) := by
      constructor
      · rintro ⟨duration', hSame, hFalls⟩
        cases hCompletion.symm.trans hSame
        exact hFalls
      · exact fun hFalls => ⟨duration, hCompletion, hFalls⟩
    have hDone : (p.advance dt).1.isComplete = true ↔
        duration ≤ p.elapsed + Scalar.nonNegative (duration - p.elapsed) := by
      unfold isComplete
      rw [completion_advance, hCompletion, elapsed_advance hEnough, remaining_of_elapsed hCompletion]
      exact decide_eq_true_iff
    rw [hDone, hMisses]
    rcases elapsed_cases hFinite hForward with ⟨hReached, hNot⟩ | ⟨hNot, hFalls, -⟩
    · exact ⟨fun _ => hNot, fun _ => hReached⟩
    · exact ⟨fun hReached => absurd hReached hNot, fun hNotFalls => absurd hFalls hNotFalls⟩
  | distance threshold speed =>
    -- the distance is set to the threshold
    have hDistance : (p.advance dt).1.distance = threshold := by
      unfold advance
      dsimp only
      rw [if_pos (Double.le_nonNegative hEnough), hCompletion]
    have hDone : (p.advance dt).1.isComplete = true := by
      unfold isComplete
      rw [completion_advance, hCompletion, hDistance]
      dsimp only
      rw [decide_eq_true (Double.le_refl_of_finite hFinite.1), Bool.or_true]
    have hNever : ¬ p.MissesEnd := by
      rintro ⟨duration, hSame, -⟩
      cases hCompletion.symm.trans hSame
    exact ⟨fun _ => hNever, fun _ => hDone⟩

/-- The end is not missed twice. -/
theorem not_missesEnd_advance : ¬ (p.advance dt).1.MissesEnd := by
  obtain ⟨hCompletion, hForward⟩ := hTracks
  rintro ⟨duration, hSame, hFalls⟩
  rw [completion_advance] at hSame
  obtain rfl := hCompletion.symm.trans hSame
  rw [elapsed_advance hEnough, remaining_of_elapsed hSame] at hFalls
  rcases elapsed_cases hFinite hForward with ⟨hReached, -⟩ | ⟨-, -, hNot⟩
  · have hSum := Double.le_add_of_le hForward hForward (Double.zero_le_nonNegative (duration - p.elapsed))
    exact Double.not_fallsShort_of_le hFinite hSum hReached hFalls
  · exact hNot hFalls

end Progress

namespace Timeline

variable [Scalar α] {t : Timeline α} {running : RunningAction α} {budget : α}

/-- A turn drops the transition that runs if it is finished. -/
theorem turn_of_finished (hRunning : t.running = some running)
    (hDone : (running.progress.advance budget).1.isComplete = true) : (t.turn budget).timeline.running = none := by
  simp only [turn, hRunning, continueRunning, hDone, if_true]

/-- Otherwise the transition takes all of the time. -/
theorem turn_of_open (hRunning : t.running = some running)
    (hOpen : (running.progress.advance budget).1.isComplete = false) :
    t.turn budget =
      ⟨{ t with
          clock := t.clock + budget
          running := some { running with progress := (running.progress.advance budget).1 } }, [], none⟩ := by
  simp only [turn, hRunning, continueRunning, hOpen, Bool.false_eq_true, if_false]

end Timeline

namespace Progress

/--
**Enough time.** A transition with finite parameters that has been handed any times, and now one that is not less than
what it has left, counts as finished and is dropped by the timeline, unless the time that is left misses the end. Then it
is kept, with the clock set on by all of the time, and is finished by the next time that suffices.
-/
theorem enough_time {completion : Completion Float} (hFinite : completion.IsFinite) (times : List Float) {dt : Float}
    (hEnough : (after completion times).remaining ≤ dt) :
    ((after completion (times ++ [dt])).isComplete = true ↔ ¬ (after completion times).MissesEnd) ∧
      (∀ dt' : Float, (after completion (times ++ [dt])).remaining ≤ dt' →
        (after completion (times ++ [dt, dt'])).isComplete = true) ∧
      ∀ (t : Timeline Float) (running : RunningAction Float), t.running = some running →
        running.progress = after completion times →
        (¬ running.progress.MissesEnd → (t.turn dt).timeline.running = none) ∧
          (running.progress.MissesEnd →
            t.turn dt =
              ⟨{ t with
                  clock := t.clock + dt
                  running := some { running with progress := after completion (times ++ [dt]) } }, [], none⟩) := by
  have hTracks := tracks_after completion times
  have hNext : after completion (times ++ [dt]) = ((after completion times).advance dt).1 := List.foldl_append
  have hDone := isComplete_advance hFinite hTracks hEnough
  refine ⟨?_, ?_, ?_⟩
  · rw [hNext]
    exact hDone
  · intro dt' hEnough'
    have hSecond : after completion (times ++ [dt, dt']) = (((after completion times).advance dt).1.advance dt').1 :=
      List.foldl_append
    rw [hNext] at hEnough'
    rw [hSecond, isComplete_advance hFinite (hTracks.advance dt) hEnough']
    exact not_missesEnd_advance hFinite hTracks hEnough
  · rintro t running hRunning hProgress
    rw [hNext, ← hProgress]
    rw [← hProgress] at hDone
    constructor
    · intro hReaches
      exact t.turn_of_finished hRunning (hDone.mpr hReaches)
    · intro hMisses
      refine t.turn_of_open hRunning ?_
      rw [← Bool.not_eq_true, hDone, not_not]
      exact hMisses

/-- A transition of 1.99 seconds, of which 0.682 have passed, is not finished by five seconds more. -/
theorem enough_time_misses :
    (Completion.elapsed 1.99).IsFinite ∧ (after (.elapsed 1.99) [0.682]).remaining ≤ 5 ∧
      (after (.elapsed 1.99) [0.682, 5]).isComplete = false ∧
      ((after (.elapsed 1.99) [0.682]).advance 5).2 = 3.692 ∧
      (after (.elapsed 1.99) [0.682, 5]).remaining = 2.220446049250313e-16 := by
  unfold Completion.IsFinite
  decide

/-- It has missed the end, and is finished by the next half second. -/
theorem enough_time_of_missed_end :
    (after (.elapsed 1.99) [0.682]).MissesEnd ∧ (after (.elapsed 1.99) [0.682, 5, 0.5]).isComplete = true := by
  have hFinite : (Completion.elapsed 1.99).IsFinite := by
    unfold Completion.IsFinite
    decide
  have hEnough : (after (.elapsed 1.99) [0.682]).remaining ≤ 5 := by decide
  obtain ⟨hDone, hThen, -⟩ := enough_time hFinite [0.682] hEnough
  constructor
  · by_contra hReaches
    exact absurd (hDone.mpr hReaches) (by decide)
  · exact hThen 0.5 (by decide +kernel)

end Progress

end PlanReplay

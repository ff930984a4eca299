import PlanReplay.Domain.Rejection
import PlanReplay.Proofs.World.Relocation

/-!
# What can keep a batch from being accepted

A batch is refused for what a world holds or for its levels; what an action asks for besides, the world does not know.
The first is a matter of structure: the batch names someone who is not declared, removes what does not hold, or leaves
someone in two places. Where a batch can be staged and leaves everyone in one place at most, only the levels can be in
the way.

* `Violation.isDemand`, `World.not_demand_of_applyEffects` — the violations that no world finds, and
  `World.attempt_demand_iff`: an attempt fails with one iff the action asks for it.
* `World.attempt_crash_iff` — when the program ends over an attempt.
* `Violation.isStructural` — the violations that are a matter of structure.
* `State.Fits` — a batch that can be staged and leaves everyone in one place at most.
* `State.fits_relocation`, `State.fits_arrival`, `State.fits_rest` — the batches of actions that fit.
* `World.not_structural_of_fits` — a batch that fits is not refused for a matter of structure.
-/

namespace PlanReplay

variable {α : Type}

/-- Whether a violation is about what is declared and what holds, and not about levels. -/
def Violation.isStructural : Violation α → Bool
  | .unknownEntity _ | .missingRelation _ | .missingFact _ | .multiplePlacements _ _ | .functionalRelation _ _ _ => true
  | .resourceExceeded _ _ _ _ _ | .negativeResource _ _ _ | .insufficientResource _ _ _ _ | .missingResource _ _
  | .nonFinite _ _ | .precondition _ => false

/-- Whether a violation is one that an action finds before it has effects, and no world does. -/
def Violation.isDemand : Violation α → Bool
  | .insufficientResource _ _ _ _ | .precondition _ => true
  | .unknownEntity _ | .missingRelation _ | .missingFact _ | .multiplePlacements _ _ | .functionalRelation _ _ _
  | .resourceExceeded _ _ _ _ _ | .negativeResource _ _ _ | .missingResource _ _ | .nonFinite _ _ => false

/-- A demand is the cause of the rejection for it, and of no other one. -/
theorem Rejection.ofViolation_eq_iff {u v : Violation α} (hDemand : v.isDemand = true) :
    Rejection.ofViolation u = .violated v ↔ u = v := by
  cases u <;> simp only [Rejection.ofViolation, Rejection.violated.injEq, reduceCtorEq, false_iff]
  -- an unknown entity is rejected as such, and no demand
  rintro rfl
  cases hDemand

variable [Scalar α]

namespace State

-- ---------------------------------------------------------------------------
-- The check of a state
-- ---------------------------------------------------------------------------

section Check

variable {s : State α}

/-- A limit of levels is neither a matter of structure nor a demand. -/
theorem limitViolation?_cases {entity : EntityId} {key limitKey : ResourceKey} {v : Violation α}
    (h : s.limitViolation? entity key limitKey = some v) : v.isStructural = false ∧ v.isDemand = false := by
  unfold limitViolation? at h
  split at h
  · split at h
    · cases h
      exact ⟨rfl, rfl⟩
    · cases h
  · cases h

/-- A rule about values is neither a matter of structure nor a demand. -/
theorem fluentViolation?_cases {fluent : Fluent} {value : α} {v : Violation α}
    (h : fluentViolation? fluent value = some v) : v.isStructural = false ∧ v.isDemand = false := by
  unfold fluentViolation? at h
  split at h
  · cases h
    exact ⟨rfl, rfl⟩
  · split at h
    · split at h
      · cases h
        exact ⟨rfl, rfl⟩
      · cases h
    · cases h

/-- What a check finds, it finds about an entity or a value. -/
theorem violation?_cases {touched : List EntityId} {v : Violation α} (h : s.violation? touched = some v) :
    (∃ entity, s.entityViolation? entity = some v) ∨ ∃ fluent value, fluentViolation? fluent value = some v := by
  rw [violation?, Option.or_eq_some_iff] at h
  rcases h with hEntity | ⟨-, hFluent⟩
  · obtain ⟨entity, -, hFound⟩ := List.exists_of_findSome?_eq_some hEntity
    exact Or.inl ⟨entity, hFound⟩
  · obtain ⟨⟨fluent, value⟩, -, hFound⟩ := List.exists_of_findSome?_eq_some hFluent
    dsimp only at hFound
    split at hFound
    · exact Or.inr ⟨fluent, value, hFound⟩
    · cases hFound

/-- No check finds a demand. -/
theorem not_demand_of_violation? {touched : List EntityId} {v : Violation α} (h : s.violation? touched = some v) :
    v.isDemand = false := by
  have hFunctional : ∀ {entity kind}, s.functionalViolation? entity kind = some v → v.isDemand = false := by
    intro entity kind hFound
    simp only [functionalViolation?, Option.ite_none_right_eq_some, Option.some.injEq] at hFound
    rw [← hFound.2]
    rfl
  rcases violation?_cases h with ⟨entity, hFound⟩ | ⟨fluent, value, hFound⟩
  · simp only [entityViolation?, Option.or_eq_some_iff] at hFound
    rcases hFound with ((((hAt | ⟨-, hIn⟩) | ⟨-, hTarget⟩) | ⟨-, hPlaced⟩) | ⟨-, hLoad⟩) | ⟨-, hPassengers⟩
    · exact hFunctional hAt
    · exact hFunctional hIn
    · exact hFunctional hTarget
    · rw [Option.ite_none_right_eq_some] at hPlaced
      cases hPlaced.2
      rfl
    · exact (limitViolation?_cases hLoad).2
    · exact (limitViolation?_cases hPassengers).2
  · exact (fluentViolation?_cases hFound).2

/-- No effect fails for a demand. -/
theorem not_demand_of_apply {effect : Effect α} {v : Violation α} (h : s.apply effect = .error v) :
    v.isDemand = false := by
  cases effect with
  | relate added | assign set given | assert added => cases h
  | unrelate removed | adjust entity key delta | retract removed =>
    simp only [apply] at h
    split at h
    · cases h
    · cases h
      rfl

/-- Staging never fails for a demand. -/
theorem not_demand_of_applyAll {effects : List (Effect α)} {v : Violation α} :
    ∀ {s : State α}, s.applyAll effects = .error v → v.isDemand = false := by
  induction effects with
  | nil => exact fun h => nomatch h
  | cons effect rest ih =>
    intro s h
    rw [applyAll] at h
    split at h
    · exact ih h
    · cases h
      exact not_demand_of_apply (by assumption)

/-- Where functional kinds are functional and everyone is in one place at most, a check finds nothing but levels. -/
theorem not_structural_of_violation? (hFunctional : s.Functional) (hPlaced : ∀ entity, s.placements entity ≤ 1)
    {touched : List EntityId} {v : Violation α} (h : s.violation? touched = some v) : v.isStructural = false := by
  have hOne : ∀ entity kind, kind.isFunctional = true → s.functionalViolation? entity kind = none := by
    intro entity kind hKind
    rw [functionalViolation?_eq_none_iff]
    exact s.functional_iff.mp hFunctional kind entity hKind
  rcases violation?_cases h with ⟨entity, hFound⟩ | ⟨fluent, value, hFound⟩
  · rw [entityViolation?, hOne entity .isAt rfl, hOne entity .isIn rfl, hOne entity .target rfl,
      if_neg (Nat.not_lt.mpr (hPlaced entity))] at hFound
    simp only [Option.none_or, Option.or_eq_some_iff] at hFound
    rcases hFound with hLoad | ⟨-, hPassengers⟩
    · exact (limitViolation?_cases hLoad).1
    · exact (limitViolation?_cases hPassengers).1
  · exact (fluentViolation?_cases hFound).1

end Check

-- ---------------------------------------------------------------------------
-- Batches that fit
-- ---------------------------------------------------------------------------

/-- A batch that can be staged and leaves everyone in one place at most. -/
def Fits (s : State α) (effects : List (Effect α)) : Prop :=
  ∃ next, s.applyAll effects = .ok next ∧ ∀ entity, next.placements entity ≤ 1

variable {s : State α} (hPlaced : ∀ entity, s.placements entity ≤ 1) {after : List (Effect α)}
  (hSpared : ∀ effect ∈ after, effect.relation? = none)

include hPlaced hSpared

/-- A batch that adds and removes no relations fits if it can be staged. -/
theorem fits_rest (hStaged : ∃ next, s.applyAll after = .ok next) : s.Fits after := by
  obtain ⟨next, hNext⟩ := hStaged
  have hSame : ∀ r, r ∈ next.relations ↔ r ∈ s.relations := by
    intro r
    refine mem_relations_of_spared ?_ hNext
    intro effect hEffect relation hRelation
    rw [hSpared effect hEffect] at hRelation
    cases hRelation
  refine ⟨next, hNext, fun entity => ?_⟩
  have hOnce := (s.placements_le_one_iff entity).mp (hPlaced entity)
  rw [placements_le_one_iff]
  exact fun a ha b hb => hOnce a ((hSame a).mp ha) b ((hSame b).mp hb)

variable {x : EntityId}

theorem Fits.of_relocate {old new : Placement} (hOld : old.relation x ∈ s.relations) {before : List (Effect α)}
    (hBefore : s.applyAll before = .ok (s.relocate x old new))
    (hStaged : ∃ next, (s.relocate x old new).applyAll after = .ok next) : s.Fits (before ++ after) := by
  have hKept : ∀ entity, (s.relocate x old new).placements entity ≤ 1 :=
    fun entity => placements_relocate_le (hPlaced x) hOld (hPlaced entity)
  obtain ⟨next, hNext, hLast⟩ := fits_rest hKept hSpared hStaged
  exact ⟨next, applyAll_concat hBefore hNext, hLast⟩

/-- A batch that takes an entity from where it is and puts it somewhere else fits if the rest can be staged. -/
theorem fits_relocation (old new : Placement) (hOld : old.relation x ∈ s.relations)
    (hStaged : ∃ next, (s.relocate x old new).applyAll after = .ok next) :
    s.Fits ([.unrelate (old.relation x), .relate (new.relation x)] ++ after) :=
  .of_relocate hPlaced hSpared hOld (applyAll_relocate (hPlaced x) hOld) hStaged

/-- A batch that puts an entity from one place to another one fits if the rest can be staged. -/
theorem fits_arrival {start goal : EntityId} (hStart : ⟨.isAt, x, start⟩ ∈ s.relations)
    (hStaged : ∃ next, (s.relocate x (.isAt start) (.isAt goal)).applyAll after = .ok next) :
    s.Fits (.relate ⟨.isAt, x, goal⟩ :: after) := by
  have hOld : (Placement.isAt start).relation x ∈ s.relations := hStart
  have hFirst : s.applyAll [.relate ⟨.isAt, x, goal⟩] = .ok (s.relocate x (.isAt start) (.isAt goal)) := by
    rw [applyAll, apply_relocate (hPlaced x) hOld]
    rfl
  exact Fits.of_relocate hPlaced hSpared hOld hFirst hStaged

end State

namespace World

variable {w : World α} {effects : List (Effect α)} {v : Violation α}

/-- A world refuses a batch for no demand of an action. -/
theorem not_demand_of_applyEffects (h : w.applyEffects effects = .error v) : v.isDemand = false := by
  unfold applyEffects at h
  split at h
  · cases h
    rfl
  · split at h
    · cases h
      exact State.not_demand_of_applyAll (by assumption)
    · split at h
      · cases h
        exact State.not_demand_of_violation? (by assumption)
      · cases h

/-- An attempt on entities that are all declared comes to what its preconditions find. -/
theorem attempt_of_known {referenced : List EntityId} (hKnown : ∀ id ∈ referenced, w.contains id = true)
    (found : Except (Failure (Violation α)) (List (Effect α))) :
    w.attempt referenced found =
      match found with
      | .error (.crashed crash) => .error (.crashed crash)
      | .error (.refused violation) => .error (.refused (.ofViolation violation))
      | .ok effects =>
        match w.applyEffects effects with
        | .error violation => .error (.refused (.ofViolation violation))
        | .ok next => .ok next := by
  have hNone : (referenced.find? fun id => !w.contains id) = none := by simpa using hKnown
  unfold attempt
  split
  · rename_i hSome
    cases hNone.symm.trans hSome
  · rfl

/-- An attempt that names someone undeclared is rejected for that, whatever its preconditions find. -/
theorem attempt_of_unknown {referenced : List EntityId} (hUnknown : ¬ ∀ id ∈ referenced, w.contains id = true)
    (found : Except (Failure (Violation α)) (List (Effect α))) :
    ∃ missing, w.attempt referenced found = .error (.refused (.unknownEntity missing)) := by
  unfold attempt
  split
  · exact ⟨_, rfl⟩
  · rename_i hNone
    exact absurd (by simpa using hNone) hUnknown

/-- An attempt is rejected for a demand iff it names declared entities only and the demand is what its preconditions
find. -/
theorem attempt_demand_iff {referenced : List EntityId} {found : Except (Failure (Violation α)) (List (Effect α))}
    (hDemand : v.isDemand = true) : w.attempt referenced found = .error (.refused (.violated v)) ↔
      (∀ id ∈ referenced, w.contains id = true) ∧ found = .error (.refused v) := by
  have hOf := fun u => Rejection.ofViolation_eq_iff (u := u) hDemand
  have hNotOwn : ∀ effects, w.applyEffects effects ≠ .error v := by
    intro effects hRefused
    rw [not_demand_of_applyEffects hRefused] at hDemand
    cases hDemand
  by_cases hKnown : ∀ id ∈ referenced, w.contains id = true
  · rw [attempt_of_known hKnown, and_iff_right hKnown]
    split
    · simp only [Except.error.injEq, reduceCtorEq]
    · simp only [Except.error.injEq, Failure.refused.injEq, hOf]
    · rename_i effects
      cases hApply : w.applyEffects effects with
      | ok next => simp only [reduceCtorEq]
      | error u =>
        simp only [Except.error.injEq, Failure.refused.injEq, hOf, reduceCtorEq, iff_false]
        rintro rfl
        exact hNotOwn effects hApply
  · obtain ⟨missing, hMissing⟩ := attempt_of_unknown hKnown found
    simp only [hMissing, hKnown, false_and, Except.error.injEq, Failure.refused.injEq, reduceCtorEq]

/-- The program ends over an attempt iff it names declared entities only and its preconditions have no result. -/
theorem attempt_crash_iff {referenced : List EntityId} {found : Except (Failure (Violation α)) (List (Effect α))}
    {crash : Crash} : w.attempt referenced found = .error (.crashed crash) ↔
      (∀ id ∈ referenced, w.contains id = true) ∧ found = .error (.crashed crash) := by
  by_cases hKnown : ∀ id ∈ referenced, w.contains id = true
  · rw [attempt_of_known hKnown, and_iff_right hKnown]
    split
    · simp only [Except.error.injEq, Failure.crashed.injEq]
    · simp only [Except.error.injEq, reduceCtorEq]
    · split <;> simp only [Except.error.injEq, reduceCtorEq]
  · obtain ⟨missing, hMissing⟩ := attempt_of_unknown hKnown found
    simp only [hMissing, hKnown, false_and, Except.error.injEq, reduceCtorEq]

/-- A sound world does not refuse a batch about declared entities that fits for a matter of structure. -/
theorem not_structural_of_fits (hSound : w.Sound)
    (hKnown : ∀ effect ∈ effects, ∀ id ∈ effect.touched, w.contains id = true) (hFits : w.state.Fits effects)
    (h : w.applyEffects effects = .error v) : v.isStructural = false := by
  obtain ⟨staged, hStaged, hPlaced⟩ := hFits
  have hFunctional := State.applyAll_functional (w.state.functional_iff.mpr hSound.state.functional) hStaged
  have hNone : ((touchedBy effects).find? fun id => !w.contains id) = none := by
    simpa [touchedBy] using hKnown
  unfold applyEffects at h
  rw [hNone, hStaged] at h
  dsimp only at h
  split at h
  · cases h
    exact State.not_structural_of_violation? hFunctional hPlaced (by assumption)
  · cases h

end World

end PlanReplay

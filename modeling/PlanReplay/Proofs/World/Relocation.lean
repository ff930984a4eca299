import PlanReplay.Proofs.World.Initial
import PlanReplay.Proofs.World.Spared

/-!
# Putting an entity somewhere else

An action that finds an entity at a placement takes it from there and puts it to another one. The relation that is
added may be of a functional kind, and then forgets the object that its subject had; but an entity that is placed once
has nothing to forget besides the placement that it leaves.

* `State.relocate` — the state with an entity put from one placement to another one.
* `State.applyAll_relocate`, `State.apply_relocate` — the effects that lead to it.
* `State.relocate_relocate` — putting the entity back leads to the state before.
* `State.placements_relocate_le` — everyone is still placed at most once.
-/

namespace PlanReplay

variable {α : Type}

/-- What contradicts the placement of an entity places the entity as well. -/
theorem Relation.places_of_contradicts {r other : Relation} {x : EntityId} (h : r.places x = true)
    (hOther : r.Contradicts other) : other.places x = true := by
  obtain ⟨hKind, hFunctional, hSubject, -⟩ := hOther
  refine places_of_replaced h hKind.symm hSubject.symm fun hPlain => ?_
  rw [hFunctional] at hPlain
  cases hPlain

namespace State

variable {s : State α} {x : EntityId} {old new : Placement}

/-- The state with an entity put from one placement to another one. -/
def relocate (s : State α) (x : EntityId) (old new : Placement) : State α :=
  { s with relations := (s.relations.erase (old.relation x)).insert (new.relation x) }

theorem mem_relocate {r : Relation} :
    r ∈ (s.relocate x old new).relations ↔ r = new.relation x ∨ (r ∈ s.relations ∧ r ≠ old.relation x) := by
  rw [relocate, OrderedSet.mem_insert, OrderedSet.mem_erase]

section Placed

variable (hOnce : s.placements x ≤ 1) (hOld : old.relation x ∈ s.relations)

include hOnce hOld

/-- Whatever places an entity that is placed once is the relation that is known to. -/
theorem eq_of_places {r : Relation} (hr : r ∈ s.relations) (hPlaces : r.places x = true) : r = old.relation x :=
  (s.placements_le_one_iff x).mp hOnce r hr _ hOld hPlaces (by simp)

/-- Where an entity has been taken from its placement, a new one forgets nothing. -/
theorem relate_erase :
    relate (s.relations.erase (old.relation x)) (new.relation x) =
      (s.relations.erase (old.relation x)).insert (new.relation x) := by
  refine OrderedSet.ext fun r => ?_
  rw [mem_relate_iff, OrderedSet.mem_insert, OrderedSet.mem_erase]
  refine or_congr_right (and_iff_left_of_imp ?_)
  rintro ⟨hr, hKept⟩ hForgotten
  exact hKept (eq_of_places hOnce hOld hr (Relation.places_of_contradicts (by simp) hForgotten))

/-- A batch that takes an entity from its placement and puts it somewhere relocates it. -/
theorem applyAll_relocate [Scalar α] :
    s.applyAll [.unrelate (old.relation x), .relate (new.relation x)] = .ok (s.relocate x old new) := by
  simp only [applyAll, apply, if_pos hOld, relate_erase hOnce hOld]
  rfl

/-- An entity that is put back is where it was, and so is everyone else. -/
theorem relocate_relocate (hDiffer : old ≠ new) : (s.relocate x old new).relocate x new old = s := by
  have hNew : new.relation x ∉ s.relations := by
    intro hMem
    exact hDiffer (Placement.relation_injective (eq_of_places hOnce hOld hMem (by simp))).symm
  have hBack : ((s.relocate x old new).relocate x new old).relations = s.relations := by
    refine OrderedSet.ext fun r => ?_
    rw [mem_relocate, mem_relocate]
    by_cases hThere : r = old.relation x
    · exact iff_of_true (Or.inl hThere) (hThere ▸ hOld)
    · rw [or_iff_right hThere]
      constructor
      · rintro ⟨rfl | ⟨hr, -⟩, hLeft⟩
        · exact absurd rfl hLeft
        · exact hr
      · intro hr
        refine ⟨Or.inr ⟨hr, hThere⟩, ?_⟩
        rintro rfl
        exact hNew hr
  calc (s.relocate x old new).relocate x new old
      = { s with relations := ((s.relocate x old new).relocate x new old).relations } := rfl
    _ = s := by rw [hBack]

/-- An entity that is put somewhere else is placed once, and everyone else as often as before. -/
theorem placements_relocate_le {y : EntityId} (hPlaced : s.placements y ≤ 1) :
    (s.relocate x old new).placements y ≤ 1 := by
  rw [placements_le_one_iff] at hPlaced ⊢
  -- besides the new placement of `x` nothing places it any more
  have hAlone : ∀ r, r ∈ s.relations ∧ r ≠ old.relation x → r.places y = true →
      (new.relation x).places y = true → r = new.relation x := by
    rintro r ⟨hr, hLeft⟩ hPlaces hNew
    obtain rfl : x = y := by simpa using hNew
    exact absurd (eq_of_places hOnce hOld hr hPlaces) hLeft
  intro a ha b hb hPlacesA hPlacesB
  rcases mem_relocate.mp ha with rfl | hKeptA <;> rcases mem_relocate.mp hb with rfl | hKeptB
  · rfl
  · exact (hAlone b hKeptB hPlacesB hPlacesA).symm
  · exact hAlone a hKeptA hPlacesA hPlacesB
  · exact hPlaced a hKeptA.1 b hKeptB.1 hPlacesA hPlacesB

end Placed

/-- An entity that is put to another place need not be taken from the one where it is. -/
theorem apply_relocate [Scalar α] {start goal : EntityId} (hOnce : s.placements x ≤ 1)
    (hStart : (Placement.isAt start).relation x ∈ s.relations) :
    s.apply (.relate ⟨.isAt, x, goal⟩) = .ok (s.relocate x (.isAt start) (.isAt goal)) := by
  have hReplaced : relate s.relations ⟨.isAt, x, goal⟩ = (s.relocate x (.isAt start) (.isAt goal)).relations := by
    refine OrderedSet.ext fun r => ?_
    rw [mem_relate_iff, mem_relocate]
    refine or_congr_right' fun hOther => and_congr_right fun hr => not_congr ?_
    have hGoal : ((Placement.isAt goal).relation x).places x = true := by simp
    constructor
    · exact fun hForgotten => eq_of_places hOnce hStart hr (Relation.places_of_contradicts hGoal hForgotten)
    · rintro rfl
      exact Relation.contradicts_iff.mpr ⟨rfl, rfl, rfl, Ne.symm hOther⟩
  rw [apply, hReplaced]
  rfl

end State

end PlanReplay

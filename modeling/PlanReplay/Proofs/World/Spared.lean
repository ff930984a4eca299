import PlanReplay.Proofs.World.Shift

/-!
# What a batch spares

An effect is about at most one relation or one fluent. What none of the effects of a batch is about is as it was
before the batch, and what is only assigned to has the value that is assigned.

* `Effect.relation?`, `Effect.fluent?` — what an effect is about.
* `State.mem_relations_of_spared`, `State.fluent_of_spared`, `State.rest_of_fluents` — what is spared stays.
* `State.occupants`, `State.length_occupants_of_moved` — how many have a placement, when one entity goes to another.
-/

namespace PlanReplay

variable {α : Type}

-- ---------------------------------------------------------------------------
-- What an effect is about
-- ---------------------------------------------------------------------------

namespace Effect

/-- The relation that an effect adds or removes. -/
def relation? : Effect α → Option Relation
  | .relate relation | .unrelate relation => some relation
  | .assign _ _ | .adjust _ _ _ | .assert _ | .retract _ => none

/-- The fluent that an effect sets. -/
def fluent? : Effect α → Option Fluent
  | .assign fluent _ => some fluent
  | .adjust entity key _ => some ⟨key, [entity]⟩
  | .relate _ | .unrelate _ | .assert _ | .retract _ => none

end Effect

namespace State

variable [Scalar α]

/-- An effect about relations of other kinds spares those of a kind. -/
theorem mem_relations_of_apply {s next : State α} {effect : Effect α} (h : s.apply effect = .ok next) {r : Relation}
    (hOther : ∀ relation, effect.relation? = some relation → relation.kind ≠ r.kind) :
    r ∈ next.relations ↔ r ∈ s.relations := by
  cases effect with
  | relate added =>
    cases h
    have hKind : added.kind ≠ r.kind := hOther added rfl
    have hDiffer : r ≠ added := by
      rintro rfl
      exact hKind rfl
    rw [relate, OrderedSet.mem_insert, or_iff_right hDiffer]
    split
    · rw [OrderedSet.mem_filter, decide_eq_true_eq]
      exact and_iff_left fun hSame => hKind hSame.1.symm
    · rfl
  | unrelate removed =>
    simp only [apply] at h
    split at h
    · cases h
      have hKind : removed.kind ≠ r.kind := hOther removed rfl
      rw [OrderedSet.mem_erase]
      refine and_iff_left ?_
      rintro rfl
      exact hKind rfl
    · cases h
  | assign | assert =>
    cases h
    rfl
  | adjust | retract =>
    simp only [apply] at h
    split at h
    · cases h
      rfl
    · cases h

/-- A batch about relations of other kinds spares those of a kind. -/
theorem mem_relations_of_spared {effects : List (Effect α)} {r : Relation}
    (hOther : ∀ effect ∈ effects, ∀ relation, effect.relation? = some relation → relation.kind ≠ r.kind) :
    ∀ {s next : State α}, s.applyAll effects = .ok next → (r ∈ next.relations ↔ r ∈ s.relations) := by
  induction effects with
  | nil =>
    intro s next h
    cases h
    rfl
  | cons effect rest ih =>
    intro s next h
    rw [List.forall_mem_cons] at hOther
    obtain ⟨middle, hFirst, hRest⟩ := applyAll_cons h
    exact (ih hOther.2 hRest).trans (mem_relations_of_apply hFirst hOther.1)

/-- An effect about another fluent spares a fluent. -/
theorem fluent_of_apply {s next : State α} {effect : Effect α} {fluent : Fluent} (h : s.apply effect = .ok next)
    (hOther : effect.fluent? ≠ some fluent) : next.fluents.get? fluent = s.fluents.get? fluent := by
  cases effect with
  | relate | assert =>
    cases h
    rfl
  | unrelate | retract =>
    simp only [apply] at h
    split at h
    · cases h
      rfl
    · cases h
  | assign set value =>
    cases h
    exact OrderedMap.get?_insert_ne _ _ fun hSame => hOther (congrArg some hSame.symm)
  | adjust entity key delta =>
    simp only [apply] at h
    split at h
    · cases h
      exact OrderedMap.get?_insert_ne _ _ fun hSame => hOther (congrArg some hSame.symm)
    · cases h

/-- A batch about other fluents spares a fluent. -/
theorem fluent_of_spared {effects : List (Effect α)} {fluent : Fluent}
    (hOther : ∀ effect ∈ effects, effect.fluent? ≠ some fluent) :
    ∀ {s next : State α}, s.applyAll effects = .ok next → next.fluents.get? fluent = s.fluents.get? fluent := by
  induction effects with
  | nil =>
    intro s next h
    cases h
    rfl
  | cons effect rest ih =>
    intro s next h
    rw [List.forall_mem_cons] at hOther
    obtain ⟨middle, hFirst, hRest⟩ := applyAll_cons h
    exact (ih hOther.2 hRest).trans (fluent_of_apply hFirst hOther.1)

/-- A batch about fluents spares relations and facts. -/
theorem rest_of_fluents {effects : List (Effect α)} (hFluents : ∀ effect ∈ effects, effect.fluent? ≠ none) :
    ∀ {s next : State α}, s.applyAll effects = .ok next → next.relations = s.relations ∧ next.facts = s.facts := by
  induction effects with
  | nil =>
    intro s next h
    cases h
    exact ⟨rfl, rfl⟩
  | cons effect rest ih =>
    intro s next h
    rw [List.forall_mem_cons] at hFluents
    obtain ⟨middle, hFirst, hRest⟩ := applyAll_cons h
    obtain ⟨hRelations, hFacts⟩ := ih hFluents.2 hRest
    rw [hRelations, hFacts]
    cases effect with
    | assign fluent value =>
      cases hFirst
      exact ⟨rfl, rfl⟩
    | adjust entity key delta =>
      simp only [apply] at hFirst
      split at hFirst
      · cases hFirst
        exact ⟨rfl, rfl⟩
      · cases hFirst
    | relate | unrelate | assert | retract => exact absurd rfl hFluents.1

/-- A fluent to which a batch assigns one value, and does nothing else, has that value. -/
theorem fluent_of_assigned {effects : List (Effect α)} {fluent : Fluent} {value : α}
    (hAssigned : ∀ effect ∈ effects, effect.fluent? = some fluent → effect = .assign fluent value) :
    ∀ {s next : State α}, s.applyAll effects = .ok next →
      (s.fluents.get? fluent = some value ∨ ∃ effect ∈ effects, effect.fluent? = some fluent) →
        next.fluents.get? fluent = some value := by
  induction effects with
  | nil =>
    rintro s next ⟨⟩ (hValue | ⟨effect, hNone, -⟩)
    · exact hValue
    · cases hNone
  | cons effect rest ih =>
    intro s next h hSet
    rw [List.forall_mem_cons] at hAssigned
    obtain ⟨middle, hFirst, hRest⟩ := applyAll_cons h
    refine ih hAssigned.2 hRest ?_
    by_cases hHere : effect.fluent? = some fluent
    · -- the value that is assigned here is the one that all assign
      rw [hAssigned.1 hHere] at hFirst
      cases hFirst
      exact Or.inl (OrderedMap.get?_insert_self _ _ _)
    · rcases hSet with hValue | ⟨setter, hSetter, hSets⟩
      · exact Or.inl ((fluent_of_apply hFirst hHere).trans hValue)
      · refine Or.inr ⟨setter, (List.mem_cons.mp hSetter).resolve_left ?_, hSets⟩
        rintro rfl
        exact hHere hSets

end State

-- ---------------------------------------------------------------------------
-- Counting who has a placement
-- ---------------------------------------------------------------------------

/-- Two lists that hold each entry once and differ in one entry at most have the same length but for that entry. -/
theorem length_add_of_nodup {β : Type} [DecidableEq β] {first second : List β} (hFirst : first.Nodup)
    (hSecond : second.Nodup) (x : β) (hOthers : ∀ y, y ≠ x → (y ∈ second ↔ y ∈ first)) :
    second.length + (if x ∈ first then 1 else 0) = first.length + (if x ∈ second then 1 else 0) := by
  have hPerm : (second.erase x).Perm (first.erase x) := by
    refine (List.perm_ext_iff_of_nodup (hSecond.erase x) (hFirst.erase x)).mpr ?_
    intro y
    rw [hSecond.mem_erase_iff, hFirst.mem_erase_iff]
    exact and_congr_right (hOthers y)
  have hLength := hPerm.length_eq
  rw [List.length_erase, List.length_erase] at hLength
  have hInFirst : x ∈ first → 0 < first.length := List.length_pos_of_mem
  have hInSecond : x ∈ second → 0 < second.length := List.length_pos_of_mem
  grind

namespace State

variable {s next : State α}

/-- The entities that have a placement. -/
def occupants (s : State α) : Placement → List EntityId
  | .isAt place => s.subjectsOf .isAt place
  | .isIn container => s.subjectsOf .isIn container
  | .carriedBy carrier => s.related .carries carrier

theorem mem_occupants_iff {p : Placement} {x : EntityId} : x ∈ s.occupants p ↔ p.relation x ∈ s.relations := by
  cases p with
  | isAt place | isIn container => exact mem_subjectsOf_iff
  | carriedBy carrier => exact mem_related_iff

/-- Who has a placement is listed once. -/
theorem nodup_occupants (s : State α) (p : Placement) : (s.occupants p).Nodup := by
  cases p with
  | isAt place | isIn place | carriedBy place =>
    refine (s.relations.nodup_toList.filter _).map_on ?_
    intro a ha b hb hSame
    obtain ⟨-, hKindA, hPlaceA⟩ := by simpa using List.mem_filter.mp ha
    obtain ⟨-, hKindB, hPlaceB⟩ := by simpa using List.mem_filter.mp hb
    cases a
    cases b
    simp_all

/-- Where the same entities have a placement, they are as many. -/
theorem length_occupants_congr {p : Placement} (h : ∀ x, p.relation x ∈ next.relations ↔ p.relation x ∈ s.relations) :
    (next.occupants p).length = (s.occupants p).length := by
  refine ((List.perm_ext_iff_of_nodup (nodup_occupants ..) (nodup_occupants ..)).mpr ?_).length_eq
  intro x
  rw [mem_occupants_iff, mem_occupants_iff]
  exact h x

variable [Scalar α] {x : EntityId} {old new : Placement}

/-- Where one entity goes from a placement to another one and all others stay, one less has the first placement and one
more has the second. -/
theorem length_occupants_of_moved (hSound : s.Sound) (hNext : next.Sound) {scope : Scope}
    (hFrame : Frame scope x s next) (hOld : old.relation x ∈ s.relations) (hNew : new.relation x ∈ next.relations)
    (p : Placement) :
    (next.occupants p).length + (if old = p then 1 else 0) = (s.occupants p).length + (if new = p then 1 else 0) := by
  have hCount := length_add_of_nodup (s.nodup_occupants p) (next.nodup_occupants p) x ?_
  · simpa only [mem_occupants_iff, hSound.relation_mem_iff hOld, hNext.relation_mem_iff hNew] using hCount
  · intro y hOther
    rw [mem_occupants_iff, mem_occupants_iff]
    exact hFrame.relations _ (by simp [hOther])

end State

end PlanReplay

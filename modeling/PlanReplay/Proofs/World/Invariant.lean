import PlanReplay.Proofs.World.Batch
import PlanReplay.World.Initial

/-!
# The invariant of worlds

A world refuses a batch that breaks a rule about one of the entities it touches. This module shows that the
rules then hold of all entities: nothing that is not touched can come to break one.

* `State.Sound`, `World.Sound` — the rules, as what holds of every entity.
* `State.violation?_eq_none_iff` — what it means that a check finds nothing.
* `World.applyEffects_sound` — a batch that is accepted keeps the rules.
* `World.reachable_sound` — every world that calls can lead to keeps the rules, and no call on it finds a
  subject with two objects of a functional kind.
-/

namespace PlanReplay

variable {α : Type}

-- ---------------------------------------------------------------------------
-- What a check finds
-- ---------------------------------------------------------------------------

namespace OrderedSet

theorem mem_foldl_insert [Ord α] [Std.LawfulEqOrd α] [Std.TransOrd α] {a : α} {xs : List α} :
    ∀ {s : OrderedSet α}, a ∈ xs.foldl (fun s a => s.insert a) s ↔ a ∈ xs ∨ a ∈ s := by
  induction xs with
  | nil => simp
  | cons x rest ih =>
    intro s
    rw [List.foldl_cons, ih, mem_insert, List.mem_cons]
    constructor
    · rintro (h | h | h)
      · exact Or.inl (Or.inr h)
      · exact Or.inl (Or.inl h)
      · exact Or.inr h
    · rintro ((h | h) | h)
      · exact Or.inr (Or.inl h)
      · exact Or.inl h
      · exact Or.inr (Or.inr h)

/-- The set of a list has the members of the list. -/
theorem mem_ofList [Ord α] [Std.LawfulEqOrd α] [Std.TransOrd α] {a : α} {xs : List α} :
    a ∈ ofList xs ↔ a ∈ xs := by
  rw [ofList, mem_foldl_insert]
  simp [not_mem_empty]

end OrderedSet

namespace State

theorem functionalViolation?_eq_none_iff {s : State α} {entity : EntityId} {kind : RelationKind} :
    s.functionalViolation? entity kind = none ↔ (s.related kind entity).length ≤ 1 := by
  simp [functionalViolation?]

variable [Scalar α]

/-- A level above its limit is what a check of limits finds. -/
theorem limitViolation?_eq_none_iff {s : State α} {entity : EntityId} {key limitKey : ResourceKey} :
    s.limitViolation? entity key limitKey = none ↔
      ∀ value limit, s.level? entity key = some value → s.level? entity limitKey = some limit →
        ¬ limit < value := by
  unfold limitViolation?
  cases hValue : s.level? entity key with
  | none => simp
  | some value =>
    cases hLimit : s.level? entity limitKey with
    | none => simp
    | some limit => simp

/-- What a check of one entity asks for. -/
theorem entityViolation?_eq_none_iff {s : State α} {entity : EntityId} :
    s.entityViolation? entity = none ↔
      (∀ kind, kind.isFunctional = true → (s.related kind entity).length ≤ 1) ∧
      s.placements entity ≤ 1 ∧
      s.limitViolation? entity .load .maxLoad = none ∧
      s.limitViolation? entity .passengers .capacity = none := by
  simp only [entityViolation?, Option.or_eq_none_iff, functionalViolation?_eq_none_iff, ite_eq_right_iff,
    reduceCtorEq, imp_false, Nat.not_lt]
  constructor
  · rintro ⟨⟨⟨⟨⟨hAt, hIn⟩, hTarget⟩, hPlaced⟩, hLoad⟩, hPassengers⟩
    refine ⟨?_, hPlaced, hLoad, hPassengers⟩
    intro kind hKind
    cases kind with
    | isAt => exact hAt
    | isIn => exact hIn
    | target => exact hTarget
    | carries | above | connected => simp [RelationKind.isFunctional] at hKind
  · rintro ⟨hRelated, hPlaced, hLoad, hPassengers⟩
    exact ⟨⟨⟨⟨⟨hRelated .isAt rfl, hRelated .isIn rfl⟩, hRelated .target rfl⟩, hPlaced⟩, hLoad⟩, hPassengers⟩

/-- What a check of one fluent asks for. -/
theorem fluentViolation?_eq_none_iff {fluent : Fluent} {value : α} :
    fluentViolation? fluent value = none ↔
      Scalar.isFinite value = true ∧
      ∀ entity, fluent.args = [entity] → fluent.key.isNonNegative = true → ¬ value < 0 := by
  unfold fluentViolation?
  cases hFinite : Scalar.isFinite value with
  | false => simp
  | true =>
    simp only [Bool.true_eq_false, if_false, true_and]
    split
    · rename_i entity hArgs
      simp [hArgs]
    · rename_i hArgs
      constructor
      · intro _ entity hEntity
        exact absurd hEntity (hArgs entity)
      · intro _
        rfl

/-- A check finds nothing iff the checked entities and the fluents about them keep the rules. -/
theorem violation?_eq_none_iff {s : State α} {touched : List EntityId} :
    s.violation? touched = none ↔
      (∀ entity ∈ touched, s.entityViolation? entity = none) ∧
      ∀ fluent value, s.fluents.get? fluent = some value →
        (fluent.args = [] ∨ ∃ arg ∈ fluent.args, arg ∈ touched) → fluentViolation? fluent value = none := by
  simp only [violation?, Option.or_eq_none_iff, List.findSome?_eq_none_iff, ite_eq_right_iff]
  refine and_congr Iff.rfl ?_
  constructor
  · intro h fluent value hFluent
    exact h (fluent, value) (OrderedMap.mem_toList_iff.mpr hFluent)
  · rintro h ⟨fluent, value⟩ hFluent
    exact h fluent value (OrderedMap.mem_toList_iff.mp hFluent)

/-- In a functional state no check finds a subject with two objects of a functional kind. -/
theorem violation?_ne_functionalRelation {s : State α} (h : s.Functional) (touched : List EntityId)
    (entity : EntityId) (kind : RelationKind) (count : Nat) :
    s.violation? touched ≠ some (.functionalRelation entity kind count) := by
  have hNone : ∀ entity kind, kind.isFunctional = true → s.functionalViolation? entity kind = none := by
    intro entity kind hKind
    rw [functionalViolation?_eq_none_iff]
    exact s.functional_iff.mp h kind entity hKind
  intro hSome
  rw [violation?, Option.or_eq_some_iff] at hSome
  rcases hSome with hEntity | ⟨-, hFluent⟩
  · obtain ⟨checked, -, hChecked⟩ := List.exists_of_findSome?_eq_some hEntity
    simp only [entityViolation?, hNone _ .isAt rfl, hNone _ .isIn rfl, hNone _ .target rfl, Option.none_or,
      Option.or_eq_some_iff] at hChecked
    rcases hChecked with (hPlaced | ⟨-, hLoad⟩) | ⟨-, hPassengers⟩
    · split at hPlaced <;> cases hPlaced
    · unfold limitViolation? at hLoad
      split at hLoad
      · split at hLoad <;> cases hLoad
      · cases hLoad
    · unfold limitViolation? at hPassengers
      split at hPassengers
      · split at hPassengers <;> cases hPassengers
      · cases hPassengers
  · obtain ⟨⟨fluent, value⟩, -, hChecked⟩ := List.exists_of_findSome?_eq_some hFluent
    dsimp only at hChecked
    split at hChecked
    · unfold fluentViolation? at hChecked
      split at hChecked
      · cases hChecked
      · split at hChecked
        · split at hChecked <;> cases hChecked
        · cases hChecked
    · cases hChecked

/-- Staging a batch fails only for what is missing. -/
theorem applyAll_ne_functionalRelation {effects : List (Effect α)} (entity : EntityId) (kind : RelationKind)
    (count : Nat) : ∀ s : State α, s.applyAll effects ≠ .error (.functionalRelation entity kind count) := by
  induction effects with
  | nil =>
    intro s h
    cases h
  | cons effect rest ih =>
    intro s h
    rw [applyAll] at h
    split at h
    · exact ih _ h
    · rename_i violation hEffect
      cases h
      cases effect with
      | relate added | assign set given | assert added => cases hEffect
      | unrelate removed | adjust entity key delta | retract removed =>
        simp only [apply] at hEffect
        split at hEffect <;> cases hEffect

-- ---------------------------------------------------------------------------
-- The rules
-- ---------------------------------------------------------------------------

/-- The rules that every state of a world keeps, about all entities. -/
structure Sound (s : State α) : Prop where
  /-- An entity is the subject of at most one `at`, one `in` and one `target`. -/
  functional : ∀ kind entity, kind.isFunctional = true → (s.related kind entity).length ≤ 1
  /-- At most one relation places an entity. -/
  placedOnce : ∀ entity, s.placements entity ≤ 1
  /-- No load is above a maximal load. -/
  load : ∀ entity value limit, s.level? entity .load = some value → s.level? entity .maxLoad = some limit →
    ¬ limit < value
  /-- No number of passengers is above a capacity. -/
  passengers : ∀ entity value limit, s.level? entity .passengers = some value →
    s.level? entity .capacity = some limit → ¬ limit < value
  finite : ∀ fluent value, s.fluents.get? fluent = some value → Scalar.isFinite value = true
  /-- No load, number of passengers, fuel or battery of an entity is below zero. -/
  nonNegative : ∀ key entity value, key.isNonNegative = true → s.level? entity key = some value → ¬ value < 0

theorem empty_sound : (empty : State α).Sound := by
  refine ⟨?_, ?_, ?_, ?_, ?_, ?_⟩
  · intro kind entity _
    exact Nat.zero_le 1
  · intro entity
    exact Nat.zero_le 1
  all_goals intros; contradiction

/-- A state is sound iff no check of an entity or of a fluent would find anything. -/
theorem sound_iff {s : State α} :
    s.Sound ↔ (∀ entity, s.entityViolation? entity = none) ∧
      ∀ fluent value, s.fluents.get? fluent = some value → fluentViolation? fluent value = none := by
  constructor
  · intro h
    refine ⟨?_, ?_⟩
    · intro entity
      rw [entityViolation?_eq_none_iff, limitViolation?_eq_none_iff, limitViolation?_eq_none_iff]
      exact ⟨fun kind hKind => h.functional kind entity hKind, h.placedOnce entity, h.load entity,
        h.passengers entity⟩
    · intro fluent value hValue
      rw [fluentViolation?_eq_none_iff]
      refine ⟨h.finite fluent value hValue, ?_⟩
      intro entity hArgs hKey
      obtain ⟨key, args⟩ := fluent
      subst hArgs
      exact h.nonNegative key entity value hKey hValue
  · rintro ⟨hEntities, hFluents⟩
    have hEntity := fun entity => entityViolation?_eq_none_iff.mp (hEntities entity)
    refine ⟨?_, ?_, ?_, ?_, ?_, ?_⟩
    · exact fun kind entity => (hEntity entity).1 kind
    · exact fun entity => (hEntity entity).2.1
    · exact fun entity => limitViolation?_eq_none_iff.mp (hEntity entity).2.2.1
    · exact fun entity => limitViolation?_eq_none_iff.mp (hEntity entity).2.2.2
    · intro fluent value hValue
      exact (fluentViolation?_eq_none_iff.mp (hFluents fluent value hValue)).1
    · intro key entity value hKey hValue
      exact (fluentViolation?_eq_none_iff.mp (hFluents ⟨key, [entity]⟩ value hValue)).2 entity rfl hKey

section Growth

variable {s next : State α} {touched : List EntityId} (h : s.Sound) (hGrows : s.GrowsWithin next touched)

include h hGrows

/-- An entity that is not touched keeps the rules: what places it and its levels were there before. -/
theorem Sound.entity_of_untouched (hFunctional : next.Functional) {entity : EntityId} (hFree : entity ∉ touched) :
    next.entityViolation? entity = none := by
  have hLevel : ∀ key value, next.level? entity key = some value → s.level? entity key = some value := by
    intro key value hValue
    rcases hGrows.fluents _ _ hValue with hOld | hNew
    · exact hOld
    · exact absurd (hNew entity (by simp)) hFree
  have hPlaces : ∀ r ∈ next.relations, r.places entity = true → r ∈ s.relations := by
    intro r hr hPlaces
    rcases hGrows.relations r hr with hOld | ⟨hSubject, hObject⟩
    · exact hOld
    · rcases Relation.about_of_places hPlaces with rfl | rfl
      · exact absurd hSubject hFree
      · exact absurd hObject hFree
  rw [entityViolation?_eq_none_iff, limitViolation?_eq_none_iff, limitViolation?_eq_none_iff]
  refine ⟨?_, ?_, ?_, ?_⟩
  · intro kind hKind
    exact next.functional_iff.mp hFunctional kind entity hKind
  · rw [placements_le_one_iff]
    intro a ha b hb hPlacesA hPlacesB
    exact (s.placements_le_one_iff entity).mp (h.placedOnce entity) a (hPlaces a ha hPlacesA) b
      (hPlaces b hb hPlacesB) hPlacesA hPlacesB
  · intro value limit hValue hLimit
    exact h.load entity value limit (hLevel _ _ hValue) (hLevel _ _ hLimit)
  · intro value limit hValue hLimit
    exact h.passengers entity value limit (hLevel _ _ hValue) (hLevel _ _ hLimit)

/-- A fluent that a check of the touched entities passes over keeps the rules: it has its old value. -/
theorem Sound.fluent_of_untouched {fluent : Fluent} {value : α} (hValue : next.fluents.get? fluent = some value)
    (hPassed : ¬ (fluent.args = [] ∨ ∃ arg ∈ fluent.args, arg ∈ touched)) :
    fluentViolation? fluent value = none := by
  rcases hGrows.fluents fluent value hValue with hOld | hNew
  · exact (sound_iff.mp h).2 fluent value hOld
  · -- a new value is about touched entities, or about none, and would not be passed over
    refine absurd ?_ hPassed
    cases hArgs : fluent.args with
    | nil => exact Or.inl rfl
    | cons arg rest => exact Or.inr ⟨arg, by simp, hNew arg (by simp [hArgs])⟩

/-- **Touched entities are enough.** A state that grows within the touched entities of a sound state, and in
which a check of the touched entities finds nothing, is sound. -/
theorem Sound.of_growsWithin (hFunctional : next.Functional) (hCheck : next.violation? touched = none) :
    next.Sound := by
  obtain ⟨hEntities, hFluents⟩ := violation?_eq_none_iff.mp hCheck
  refine sound_iff.mpr ⟨?_, ?_⟩
  · intro entity
    by_cases hEntity : entity ∈ touched
    · exact hEntities entity hEntity
    · exact h.entity_of_untouched hGrows hFunctional hEntity
  · intro fluent value hValue
    by_cases hChecked : fluent.args = [] ∨ ∃ arg ∈ fluent.args, arg ∈ touched
    · exact hFluents fluent value hValue hChecked
    · exact h.fluent_of_untouched hGrows hValue hChecked

end Growth

end State

-- ---------------------------------------------------------------------------
-- Batches
-- ---------------------------------------------------------------------------

namespace World

/-- Everything that a world holds is about declared entities. -/
structure Declared (w : World α) : Prop where
  relations : ∀ r ∈ w.state.relations, w.contains r.subject = true ∧ w.contains r.object = true
  facts : ∀ fact ∈ w.state.facts, ∀ id ∈ fact.args, w.contains id = true
  fluents : ∀ fluent value, w.state.fluents.get? fluent = some value →
    ∀ id ∈ fluent.args, w.contains id = true

/-- What is about declared entities stays so while the state grows within declared ones and the declared
entities stay. -/
theorem Declared.of_growsWithin {w next : World α} {touched : List EntityId} (h : w.Declared)
    (hGrows : w.state.GrowsWithin next.state touched)
    (hKept : ∀ id, w.contains id = true → next.contains id = true)
    (hTouched : ∀ id ∈ touched, next.contains id = true) : next.Declared := by
  refine ⟨?_, ?_, ?_⟩
  · intro r hr
    rcases hGrows.relations r hr with hOld | ⟨hSubject, hObject⟩
    · exact ⟨hKept _ (h.relations r hOld).1, hKept _ (h.relations r hOld).2⟩
    · exact ⟨hTouched _ hSubject, hTouched _ hObject⟩
  · intro fact hFact id hid
    rcases hGrows.facts fact hFact with hOld | hNew
    · exact hKept _ (h.facts fact hOld id hid)
    · exact hTouched _ (hNew id hid)
  · intro fluent value hFluent id hid
    rcases hGrows.fluents fluent value hFluent with hOld | hNew
    · exact hKept _ (h.fluents fluent value hOld id hid)
    · exact hTouched _ (hNew id hid)

theorem contains_declare {w : World α} {id declared : EntityId} {kind : EntityKind} :
    (w.declare declared kind).contains id = (decide (id = declared) || w.contains id) := by
  simp only [contains, OrderedMap.contains, declare, OrderedMap.get?_insert]
  split
  · simp [*]
  · simp [*]

variable [Scalar α]

/-- What it means that a batch is accepted: it names declared entities, it can be staged, and the check of
what it touches finds nothing. -/
theorem applyEffects_eq_ok_iff {w next : World α} {effects : List (Effect α)} :
    w.applyEffects effects = .ok next ↔
      (∀ id ∈ touchedBy effects, w.contains id = true) ∧
      ∃ staged, w.state.applyAll effects = .ok staged ∧
        staged.violation? (OrderedSet.ofList (touchedBy effects)).toList = none ∧
        next = { w with state := staged } := by
  unfold applyEffects
  cases hUnknown : (touchedBy effects).find? fun id => !w.contains id with
  | some id =>
    have hMem := List.mem_of_find?_eq_some hUnknown
    have hMissing := List.find?_some hUnknown
    simp only [reduceCtorEq, false_iff, not_and]
    intro hDeclared
    rw [hDeclared id hMem] at hMissing
    cases hMissing
  | none =>
    have hDeclared : ∀ id ∈ touchedBy effects, w.contains id = true := by simpa using hUnknown
    cases hStaged : w.state.applyAll effects with
    | error violation => simp
    | ok staged =>
      cases hCheck : staged.violation? (OrderedSet.ofList (touchedBy effects)).toList with
      | some violation => simp [hCheck]
      | none =>
        simp only [hCheck, Except.ok.injEq]
        constructor
        · intro hNext
          exact ⟨hDeclared, staged, rfl, hCheck, hNext.symm⟩
        · rintro ⟨-, _, rfl, -, hNext⟩
          exact hNext.symm

/-- **The invariant of worlds.** Everything is about declared entities, and the rules hold. -/
structure Sound (w : World α) : Prop where
  declared : w.Declared
  state : w.state.Sound

theorem empty_sound : (empty : World α).Sound := by
  refine ⟨⟨?_, ?_, ?_⟩, State.empty_sound⟩
  · intro r hr
    exact absurd hr (OrderedSet.not_mem_empty r)
  · intro fact hFact
    exact absurd hFact (OrderedSet.not_mem_empty fact)
  · intro fluent value hFluent
    cases hFluent

/-- A declaration keeps the invariant. -/
theorem declare_sound {w : World α} (h : w.Sound) (id : EntityId) (kind : EntityKind) :
    (w.declare id kind).Sound := by
  refine ⟨?_, h.state⟩
  refine h.declared.of_growsWithin (State.GrowsWithin.refl w.state []) ?_ (by simp)
  intro other hOther
  rw [contains_declare, hOther, Bool.or_true]

/-- A batch that is accepted keeps the invariant. -/
theorem applyEffects_sound {w next : World α} {effects : List (Effect α)} (hSound : w.Sound)
    (h : w.applyEffects effects = .ok next) : next.Sound := by
  obtain ⟨hDeclared, staged, hStaged, hCheck, rfl⟩ := applyEffects_eq_ok_iff.mp h
  have hGrows := State.applyAll_growsWithin hStaged
  have hFunctional := State.applyAll_functional (w.state.functional_iff.mpr hSound.state.functional) hStaged
  refine ⟨hSound.declared.of_growsWithin hGrows (fun _ hid => hid) hDeclared, ?_⟩
  refine hSound.state.of_growsWithin ?_ hFunctional hCheck
  -- the check goes through the same entities in another order
  have hSame : ∀ id, id ∈ touchedBy effects → id ∈ (OrderedSet.ofList (touchedBy effects)).toList :=
    fun id hid => OrderedSet.mem_toList.mpr (OrderedSet.mem_ofList.mpr hid)
  exact hGrows.mono hSame

/-- A batch about declared entities is accepted if it can be staged and the state is sound. -/
theorem applyEffects_of_sound {w : World α} {effects : List (Effect α)} {staged : State α}
    (hDeclared : ∀ id ∈ touchedBy effects, w.contains id = true) (hStaged : w.state.applyAll effects = .ok staged)
    (hSound : staged.Sound) : w.applyEffects effects = .ok { w with state := staged } := by
  obtain ⟨hEntities, hFluents⟩ := State.sound_iff.mp hSound
  refine applyEffects_eq_ok_iff.mpr ⟨hDeclared, staged, hStaged, ?_, rfl⟩
  refine State.violation?_eq_none_iff.mpr ⟨?_, ?_⟩
  · exact fun entity _ => hEntities entity
  · exact fun fluent value hValue _ => hFluents fluent value hValue

/-- No batch on a sound world is refused for two objects of a functional kind. -/
theorem applyEffects_ne_functionalRelation {w : World α} (hSound : w.Sound) (effects : List (Effect α))
    (entity : EntityId) (kind : RelationKind) (count : Nat) :
    w.applyEffects effects ≠ .error (.functionalRelation entity kind count) := by
  intro h
  unfold applyEffects at h
  split at h
  · cases h
  · split at h
    · rename_i violation hStaged
      cases h
      exact State.applyAll_ne_functionalRelation entity kind count w.state hStaged
    · rename_i staged hStaged
      have hFunctional := State.applyAll_functional (w.state.functional_iff.mpr hSound.state.functional) hStaged
      split at h
      · rename_i violation hCheck
        cases h
        exact State.violation?_ne_functionalRelation hFunctional _ entity kind count hCheck
      · cases h

end World

-- ---------------------------------------------------------------------------
-- Calls
-- ---------------------------------------------------------------------------

/-- The calls that change a world. -/
inductive WorldCall (α : Type) where
  | declare (id : EntityId) (kind : EntityKind)
  | applyEffects (effects : List (Effect α))
  | applyEffect (effect : Effect α)
  | setLevel (entity : EntityId) (key : ResourceKey) (value : α)

namespace World

variable [Scalar α]

/-- The world after a call, and why the call is refused if it is; a refused call changes nothing. -/
def perform (w : World α) (call : WorldCall α) : World α × Option (Violation α) :=
  let outcome : Except (Violation α) (World α) :=
    match call with
    | .declare id kind => .ok (w.declare id kind)
    | .applyEffects effects => w.applyEffects effects
    | .applyEffect effect => w.applyEffect effect
    | .setLevel entity key value => w.setLevel entity key value
  match outcome with
  | .ok next => (next, none)
  | .error violation => (w, some violation)

/-- A call declares an entity or applies a batch. -/
theorem perform_cases (w : World α) (call : WorldCall α) :
    (∃ id kind, w.perform call = (w.declare id kind, none)) ∨
    ∃ effects, (∃ next, w.applyEffects effects = .ok next ∧ w.perform call = (next, none)) ∨
      ∃ violation, w.applyEffects effects = .error violation ∧ w.perform call = (w, some violation) := by
  have hBatch : ∀ effects, (∃ next, w.applyEffects effects = .ok next ∧
        w.perform (.applyEffects effects) = (next, none)) ∨
      ∃ violation, w.applyEffects effects = .error violation ∧
        w.perform (.applyEffects effects) = (w, some violation) := by
    intro effects
    cases hApply : w.applyEffects effects with
    | ok next => exact Or.inl ⟨next, rfl, by simp [perform, hApply]⟩
    | error violation => exact Or.inr ⟨violation, rfl, by simp [perform, hApply]⟩
  cases call with
  | declare id kind => exact Or.inl ⟨id, kind, rfl⟩
  | applyEffects effects => exact Or.inr ⟨effects, hBatch effects⟩
  | applyEffect effect => exact Or.inr ⟨[effect], hBatch [effect]⟩
  | setLevel entity key value =>
    exact Or.inr ⟨[.setLevel entity key value], hBatch [.setLevel entity key value]⟩

/-- A call keeps the invariant, whether it is refused or not. -/
theorem perform_sound {w : World α} (h : w.Sound) (call : WorldCall α) : (w.perform call).1.Sound := by
  rcases w.perform_cases call with ⟨id, kind, hCall⟩ | ⟨effects, ⟨next, hApply, hCall⟩ | ⟨violation, -, hCall⟩⟩
  · rw [hCall]
    exact declare_sound h id kind
  · rw [hCall]
    exact applyEffects_sound h hApply
  · rw [hCall]
    exact h

end World

-- ---------------------------------------------------------------------------
-- Reachable worlds
-- ---------------------------------------------------------------------------

namespace World

/-- The worlds that calls lead to, from the empty world or from the initial world of a problem. -/
inductive Reachable : World Float → Prop where
  | empty : Reachable .empty
  | ofProblem {p : Problem} {w : World Float} (h : World.ofProblem p = .ok w) : Reachable w
  | perform {w : World Float} (h : Reachable w) (call : WorldCall Float) : Reachable (w.perform call).1

theorem foldl_declare_sound {β : Type} {declareNext : World α → β → World α} [Scalar α]
    (hNext : ∀ w b, w.Sound → (declareNext w b).Sound) (list : List β) :
    ∀ w : World α, w.Sound → (list.foldl declareNext w).Sound := by
  induction list with
  | nil => exact fun _ h => h
  | cons b rest ih => exact fun w h => ih _ (hNext w b h)

/-- Before its initial batch, the world of a problem only declares. -/
theorem declared_sound [Scalar α] (p : Problem) : (declared p : World α).Sound := by
  unfold declared mention
  refine foldl_declare_sound ?_ _ _ (foldl_declare_sound ?_ _ _ empty_sound)
  · intro w name h
    dsimp only
    split
    · exact h
    · exact declare_sound h _ _
  · intro w object h
    exact declare_sound h _ _

/-- The initial world of a problem keeps the invariant. -/
theorem ofProblem_sound {p : Problem} {w : World Float} (h : World.ofProblem p = .ok w) : w.Sound := by
  unfold ofProblem at h
  split at h
  · cases h
  · split at h
    · cases h
      exact applyEffects_sound (declared_sound p) ‹_›
    · cases h

/-- Every reachable world keeps the invariant: by induction on the calls. -/
theorem Reachable.sound {w : World Float} (h : w.Reachable) : w.Sound := by
  induction h with
  | empty => exact empty_sound
  | ofProblem h => exact ofProblem_sound h
  | perform _ call ih => exact perform_sound ih call

/--
**World invariant.** In every reachable world what is held is about declared entities, each entity has at
most one object of a functional kind and at most one placement, no load or number of passengers is above its
limit, and every fluent is finite and not below zero where it must not be. No call on such a world is
refused for two objects of a functional kind: that check never fires.
-/
theorem reachable_sound {w : World Float} (h : w.Reachable) :
    w.Sound ∧ ∀ call entity kind count,
      (w.perform call).2 ≠ some (.functionalRelation entity kind count) := by
  refine ⟨h.sound, ?_⟩
  intro call entity kind count hRefused
  rcases w.perform_cases call with ⟨id, kind, hCall⟩ | ⟨effects, ⟨next, -, hCall⟩ | ⟨violation, hApply, hCall⟩⟩
  · rw [hCall] at hRefused
    cases hRefused
  · rw [hCall] at hRefused
    cases hRefused
  · rw [hCall] at hRefused
    cases hRefused
    exact applyEffects_ne_functionalRelation h.sound effects entity kind count hApply

/-- A robot that is at a room cannot be put into another one as well, and its battery cannot fall below zero:
both calls are refused, and the world stays as it was. -/
theorem reachable_sound_after_refusals :
    let calls : List (WorldCall Float) :=
      [.declare ⟨"r"⟩ .robot, .declare ⟨"a"⟩ .room, .declare ⟨"b"⟩ .room,
        .applyEffects [.relate ⟨.isAt, ⟨"r"⟩, ⟨"a"⟩⟩, .assign ⟨.battery, [⟨"r"⟩]⟩ 5],
        .applyEffect (.relate ⟨.isIn, ⟨"r"⟩, ⟨"b"⟩⟩), .setLevel ⟨"r"⟩ .battery (-1)]
    let w := calls.foldl (fun w call => (w.perform call).1) empty
    w.Reachable ∧ w.relations = [⟨.isAt, ⟨"r"⟩, ⟨"a"⟩⟩] ∧ w.level? ⟨"r"⟩ .battery = some 5 ∧ w.Sound ∧
      ∀ call entity kind count, (w.perform call).2 ≠ some (.functionalRelation entity kind count) := by
  intro calls w
  have hReachable : w.Reachable :=
    .perform (.perform (.perform (.perform (.perform (.perform .empty _) _) _) _) _) _
  refine ⟨hReachable, ?_, ?_, reachable_sound hReachable⟩
  · decide
  · decide

end World

end PlanReplay

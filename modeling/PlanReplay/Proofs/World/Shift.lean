import PlanReplay.Proofs.World.Invariant

/-!
# Where a batch puts an entity

The batches of actions have a shape in common. They put one entity somewhere, or leave every entity where it
is, and for the rest they change levels of one mover and a few facts. This module says what such a batch does to
a state, once for all actions.

* `Placement.relation`, `World.placement?_eq_some_iff` — placements as relations.
* `State.Frame` — what may differ between two states.
* `Shift` — the shape of a batch; `Shift.frame`, `Shift.lands` and `Shift.stays` say what it does.
* `Shift.placed` — an entity that had a placement has exactly one afterwards.
* `World.holds_of_shift_iff` — where everyone is after an accepted batch of this shape.
-/

namespace PlanReplay

variable {α : Type}

-- ---------------------------------------------------------------------------
-- Placements as relations
-- ---------------------------------------------------------------------------

namespace Placement

/-- The relation that places an entity. -/
def relation (entity : EntityId) : Placement → Relation
  | isAt place => ⟨.isAt, entity, place⟩
  | isIn container => ⟨.isIn, entity, container⟩
  | carriedBy carrier => ⟨.carries, carrier, entity⟩

/-- Who holds an entity that is in or carried by another one. -/
def holder? : Placement → Option EntityId
  | isAt _ => none
  | isIn holder | carriedBy holder => some holder

@[simp] theorem places_relation (p : Placement) (x entity : EntityId) :
    (p.relation x).places entity = decide (x = entity) := by
  cases p <;> rfl

theorem relation_injective {p q : Placement} {x : EntityId} (h : p.relation x = q.relation x) : p = q := by
  cases p <;> cases q <;> simp_all [relation]

end Placement

/-- What places an entity is the relation of a placement. -/
theorem Relation.eq_relation_of_places {r : Relation} {x : EntityId} (h : r.places x = true) :
    ∃ p : Placement, r = p.relation x := by
  obtain ⟨kind, subject, object⟩ := r
  cases kind with
  | isAt =>
    obtain rfl : subject = x := of_decide_eq_true h
    exact ⟨.isAt object, rfl⟩
  | isIn =>
    obtain rfl : subject = x := of_decide_eq_true h
    exact ⟨.isIn object, rfl⟩
  | carries =>
    obtain rfl : object = x := of_decide_eq_true h
    exact ⟨.carriedBy subject, rfl⟩
  | above | connected | target => cases h

namespace State

theorem mem_related_iff {s : State α} {kind : RelationKind} {subject object : EntityId} :
    object ∈ s.related kind subject ↔ ⟨kind, subject, object⟩ ∈ s.relations := by
  simp only [related, List.mem_map, List.mem_filter, decide_eq_true_eq, OrderedSet.mem_toList]
  constructor
  · rintro ⟨r, ⟨hr, rfl, rfl⟩, rfl⟩
    exact hr
  · intro h
    exact ⟨_, ⟨h, rfl, rfl⟩, rfl⟩

theorem mem_subjectsOf_iff {s : State α} {kind : RelationKind} {subject object : EntityId} :
    subject ∈ s.subjectsOf kind object ↔ ⟨kind, subject, object⟩ ∈ s.relations := by
  simp only [subjectsOf, List.mem_map, List.mem_filter, decide_eq_true_eq, OrderedSet.mem_toList]
  constructor
  · rintro ⟨r, ⟨hr, rfl, rfl⟩, rfl⟩
    exact hr
  · intro h
    exact ⟨_, ⟨h, rfl, rfl⟩, rfl⟩

/-- An entity has a placement iff a relation places it. -/
theorem placements_pos_iff {s : State α} {entity : EntityId} :
    0 < s.placements entity ↔ ∃ r ∈ s.relations, r.places entity = true := by
  rw [placements_eq, List.length_pos_iff_exists_mem]
  simp only [List.mem_filter, OrderedSet.mem_toList]

/-- In a sound state whoever has a placement has no other. -/
theorem Sound.relation_mem_iff [Scalar α] {s : State α} (h : s.Sound) {x : EntityId} {old : Placement}
    (hPlaced : old.relation x ∈ s.relations) (p : Placement) : p.relation x ∈ s.relations ↔ old = p := by
  constructor
  · intro hOther
    exact Placement.relation_injective
      ((s.placements_le_one_iff x).mp (h.placedOnce x) _ hPlaced _ hOther (by simp) (by simp))
  · rintro rfl
    exact hPlaced

end State

namespace World

/-- The first object that is related is one that is related. -/
theorem holds_of_related? {w : World α} {kind : RelationKind} {subject object : EntityId}
    (h : w.related? kind subject = some object) : w.holds ⟨kind, subject, object⟩ = true :=
  decide_eq_true (State.mem_related_iff.mp (List.mem_of_head? h))

/-- In a sound world the first object of a functional kind is the only one. -/
theorem related?_eq_some_iff [Scalar α] {w : World α} (hSound : w.Sound) {kind : RelationKind}
    (hKind : kind.isFunctional = true) {subject object : EntityId} :
    w.related? kind subject = some object ↔ w.holds ⟨kind, subject, object⟩ = true := by
  refine ⟨holds_of_related?, ?_⟩
  intro h
  have hMem : object ∈ w.related kind subject := State.mem_related_iff.mpr (of_decide_eq_true h)
  have hOnce : (w.related kind subject).length ≤ 1 := hSound.state.functional kind subject hKind
  obtain ⟨only, hOnly⟩ := List.length_eq_one_iff.mp (Nat.le_antisymm hOnce (List.length_pos_of_mem hMem))
  rw [hOnly, List.mem_singleton] at hMem
  rw [related?, hOnly, hMem]
  rfl

theorem mem_of_placement? {w : World α} {x : EntityId} {p : Placement} (h : w.placement? x = some p) :
    p.relation x ∈ w.state.relations := by
  simp only [placement?, Option.or_eq_some_iff, Option.map_eq_some_iff] at h
  rcases h with (⟨place, hPlace, rfl⟩ | ⟨-, container, hContainer, rfl⟩) | ⟨-, carrier, hCarrier, rfl⟩
  · exact State.mem_related_iff.mp (List.mem_of_head? hPlace)
  · exact State.mem_related_iff.mp (List.mem_of_head? hContainer)
  · exact State.mem_subjectsOf_iff.mp (List.mem_of_head? hCarrier)

/-- Where no view finds an entity, no relation places it. -/
theorem not_mem_of_placement? {w : World α} {x : EntityId} (h : w.placement? x = none) (p : Placement) :
    p.relation x ∉ w.state.relations := by
  simp only [placement?, related?, related, subjectsOf, Option.or_eq_none_iff, Option.map_eq_none_iff,
    List.head?_eq_none_iff, List.eq_nil_iff_forall_not_mem] at h
  obtain ⟨⟨hAt, hIn⟩, hCarried⟩ := h
  cases p with
  | isAt place => exact fun hMem => hAt place (State.mem_related_iff.mpr hMem)
  | isIn container => exact fun hMem => hIn container (State.mem_related_iff.mpr hMem)
  | carriedBy carrier => exact fun hMem => hCarried carrier (State.mem_subjectsOf_iff.mpr hMem)

/-- In a sound world an entity is where any relation places it. -/
theorem placement?_eq_some_iff [Scalar α] {w : World α} (hSound : w.Sound) {x : EntityId} {p : Placement} :
    w.placement? x = some p ↔ p.relation x ∈ w.state.relations := by
  refine ⟨mem_of_placement?, ?_⟩
  intro hMem
  cases hFound : w.placement? x with
  | none => exact absurd hMem (not_mem_of_placement? hFound p)
  | some q =>
    have hOnce := (w.state.placements_le_one_iff x).mp (hSound.state.placedOnce x)
    have hSame : q.relation x = p.relation x :=
      hOnce _ (mem_of_placement? hFound) _ hMem (by simp) (by simp)
    rw [Placement.relation_injective hSame]

end World

-- ---------------------------------------------------------------------------
-- Frames
-- ---------------------------------------------------------------------------

/-- What an action may change besides where its subject is. -/
structure Scope where
  /-- The entity whose levels may change. -/
  mover? : Option EntityId
  facts : List Fact

namespace Scope

/-- The levels of the mover. -/
def Covers (scope : Scope) (fluent : Fluent) : Prop := ∃ mover, scope.mover? = some mover ∧ fluent.args = [mover]

end Scope

/-- Whether an effect leaves relations alone and changes only what the scope allows. -/
def Effect.Within (scope : Scope) : Effect α → Prop
  | .relate _ | .unrelate _ => False
  | .assign fluent _ => scope.Covers fluent
  | .adjust entity key _ => scope.Covers ⟨key, [entity]⟩
  | .assert fact | .retract fact => fact ∈ scope.facts

theorem Effect.setLevel_within {scope : Scope} {mover : EntityId} (h : scope.mover? = some mover)
    (key : ResourceKey) (value : α) : (Effect.setLevel mover key value).Within scope :=
  ⟨mover, h, rfl⟩

theorem Effect.adjust_within {scope : Scope} {mover : EntityId} (h : scope.mover? = some mover)
    (key : ResourceKey) (delta : α) : (Effect.adjust mover key delta).Within scope :=
  ⟨mover, h, rfl⟩

namespace State

/-- The states differ at most in the placement of `x` and in what the scope allows. -/
structure Frame (scope : Scope) (x : EntityId) (s next : State α) : Prop where
  relations : ∀ r, r.places x = false → (r ∈ next.relations ↔ r ∈ s.relations)
  facts : ∀ fact, fact ∉ scope.facts → (fact ∈ next.facts ↔ fact ∈ s.facts)
  fluents : ∀ fluent, ¬ scope.Covers fluent → next.fluents.get? fluent = s.fluents.get? fluent

variable {scope : Scope} {x : EntityId}

theorem Frame.refl (s : State α) : Frame scope x s s :=
  ⟨fun _ _ => Iff.rfl, fun _ _ => Iff.rfl, fun _ _ => rfl⟩

theorem Frame.trans {s middle next : State α} (h : Frame scope x s middle) (h' : Frame scope x middle next) :
    Frame scope x s next :=
  ⟨fun r hr => (h'.relations r hr).trans (h.relations r hr),
    fun fact hFact => (h'.facts fact hFact).trans (h.facts fact hFact),
    fun fluent hFluent => (h'.fluents fluent hFluent).trans (h.fluents fluent hFluent)⟩

/-- A fluent that is set is one of the mover, and so the others keep their values. -/
theorem Frame.insert_fluent {s : State α} {set : Fluent} (h : scope.Covers set) (value : α) :
    Frame scope x s { s with fluents := s.fluents.insert set value } := by
  refine ⟨fun _ _ => Iff.rfl, fun _ _ => Iff.rfl, ?_⟩
  intro fluent hFluent
  refine OrderedMap.get?_insert_ne _ _ ?_
  rintro rfl
  exact hFluent h

/-- Relations that place `x` come and go freely. -/
theorem Frame.of_relations {s : State α} {relations : OrderedSet Relation}
    (h : ∀ r, r.places x = false → (r ∈ relations ↔ r ∈ s.relations)) :
    Frame scope x s { s with relations := relations } :=
  ⟨h, fun _ _ => Iff.rfl, fun _ _ => rfl⟩

variable [Scalar α]

/-- An effect within the scope leaves relations alone and the rest in its frame. -/
theorem apply_within {s next : State α} {effect : Effect α} (hWithin : effect.Within scope)
    (h : s.apply effect = .ok next) : next.relations = s.relations ∧ Frame scope x s next := by
  cases effect with
  | relate added => exact hWithin.elim
  | unrelate removed => exact hWithin.elim
  | assign fluent value =>
    cases h
    exact ⟨rfl, .insert_fluent hWithin value⟩
  | adjust entity key delta =>
    simp only [apply] at h
    split at h
    · cases h
      exact ⟨rfl, .insert_fluent hWithin _⟩
    · cases h
  | assert added =>
    cases h
    refine ⟨rfl, fun _ _ => Iff.rfl, ?_, fun _ _ => rfl⟩
    intro fact hFact
    rw [OrderedSet.mem_insert]
    refine or_iff_right ?_
    rintro rfl
    exact hFact hWithin
  | retract removed =>
    simp only [apply] at h
    split at h
    · cases h
      refine ⟨rfl, fun _ _ => Iff.rfl, ?_, fun _ _ => rfl⟩
      intro fact hFact
      rw [OrderedSet.mem_erase]
      refine and_iff_left ?_
      rintro rfl
      exact hFact hWithin
    · cases h

/-- A relation that is added places `x`, and so do those that it replaces. -/
theorem apply_relate_frame {s next : State α} {p : Placement} (h : s.apply (.relate (p.relation x)) = .ok next) :
    p.relation x ∈ next.relations ∧ Frame scope x s next := by
  cases h
  refine ⟨OrderedSet.mem_insert.mpr (Or.inl rfl), .of_relations ?_⟩
  intro r hr
  have hOther : r ≠ p.relation x := by
    rintro rfl
    simp at hr
  rw [relate, OrderedSet.mem_insert, or_iff_right hOther]
  split
  · rename_i hFunctional
    rw [OrderedSet.mem_filter]
    refine and_iff_left ?_
    -- a relation of the same functional kind and subject would place `x` as well
    rw [decide_eq_true_eq]
    rintro ⟨hKind, hSubject⟩
    cases p with
    | isAt place | isIn container => simp_all [Relation.places, Placement.relation]
    | carriedBy carrier => cases hFunctional
  · rfl

theorem apply_unrelate_frame {s next : State α} {p : Placement}
    (h : s.apply (.unrelate (p.relation x)) = .ok next) : Frame scope x s next := by
  simp only [apply] at h
  split at h
  · cases h
    refine .of_relations ?_
    intro r hr
    rw [OrderedSet.mem_erase]
    refine and_iff_left ?_
    rintro rfl
    simp at hr
  · cases h

theorem applyAll_append {first second : List (Effect α)} :
    ∀ {s next : State α}, s.applyAll (first ++ second) = .ok next →
      ∃ middle, s.applyAll first = .ok middle ∧ middle.applyAll second = .ok next := by
  induction first with
  | nil => exact fun h => ⟨_, rfl, h⟩
  | cons effect rest ih =>
    intro s next h
    obtain ⟨after, hFirst, hRest⟩ := applyAll_cons h
    obtain ⟨middle, hMiddle, hSecond⟩ := ih hRest
    refine ⟨middle, ?_, hSecond⟩
    rw [applyAll, hFirst]
    exact hMiddle

/-- What a batch does last, it does to the state that the rest leads to. -/
theorem apply_of_applyAll_concat {before : List (Effect α)} {effect : Effect α} {s next : State α}
    (h : s.applyAll (before ++ [effect]) = .ok next) :
    ∃ middle, s.applyAll before = .ok middle ∧ middle.apply effect = .ok next := by
  obtain ⟨middle, hBefore, hRest⟩ := applyAll_append h
  obtain ⟨last, hLast, hDone⟩ := applyAll_cons hRest
  cases hDone
  exact ⟨middle, hBefore, hLast⟩

/-- A batch can be staged in two parts. -/
theorem applyAll_concat {first second : List (Effect α)} {middle next : State α} :
    ∀ {s : State α}, s.applyAll first = .ok middle → middle.applyAll second = .ok next →
      s.applyAll (first ++ second) = .ok next := by
  induction first with
  | nil =>
    rintro s ⟨⟩ hSecond
    exact hSecond
  | cons effect rest ih =>
    intro s hFirst hSecond
    obtain ⟨after, hEffect, hRest⟩ := applyAll_cons hFirst
    rw [List.cons_append, applyAll, hEffect]
    exact ih hRest hSecond

/-- A batch within the scope leaves relations alone and the rest in its frame. -/
theorem applyAll_within {effects : List (Effect α)} (hWithin : ∀ effect ∈ effects, effect.Within scope) :
    ∀ {s next : State α}, s.applyAll effects = .ok next →
      next.relations = s.relations ∧ Frame scope x s next := by
  induction effects with
  | nil =>
    intro s next h
    cases h
    exact ⟨rfl, .refl s⟩
  | cons effect rest ih =>
    intro s next h
    obtain ⟨middle, hFirst, hRest⟩ := applyAll_cons h
    obtain ⟨hKept, hFrame⟩ := apply_within (hWithin effect (by simp)) hFirst
    obtain ⟨hKeptRest, hFrameRest⟩ := ih (fun e he => hWithin e (by simp [he])) hRest
    exact ⟨hKeptRest.trans hKept, hFrame.trans hFrameRest⟩

end State

-- ---------------------------------------------------------------------------
-- Shifts
-- ---------------------------------------------------------------------------

/-- A batch that leaves every entity where it is, or puts `x` somewhere after forgetting where it was. -/
inductive Shift (scope : Scope) (x : EntityId) : List (Effect α) → Option Placement → Prop where
  | stay {effects : List (Effect α)} (hWithin : ∀ effect ∈ effects, effect.Within scope) :
      Shift scope x effects none
  | land {before after : List (Effect α)} {p : Placement}
      (hBefore : ∀ effect ∈ before, effect.Within scope ∨ ∃ old : Placement, effect = .unrelate (old.relation x))
      (hAfter : ∀ effect ∈ after, effect.Within scope) :
      Shift scope x (before ++ .relate (p.relation x) :: after) (some p)

namespace Shift

variable {scope : Scope} {x : EntityId}

/-- A batch that forgets where `x` was and puts it somewhere else. -/
theorem change (old p : Placement) {after : List (Effect α)} (hAfter : ∀ effect ∈ after, effect.Within scope) :
    Shift scope x (.unrelate (old.relation x) :: .relate (p.relation x) :: after) (some p) := by
  have hBefore : ∀ effect ∈ [Effect.unrelate (α := α) (old.relation x)],
      effect.Within scope ∨ ∃ q : Placement, effect = .unrelate (q.relation x) := by
    intro effect hEffect
    exact Or.inr ⟨old, List.mem_singleton.mp hEffect⟩
  have hShift := Shift.land (p := p) hBefore hAfter
  exact hShift

/-- A batch that puts `x` somewhere, and goes on within the scope. -/
theorem enter (p : Placement) {after : List (Effect α)} (hAfter : ∀ effect ∈ after, effect.Within scope) :
    Shift scope x (.relate (p.relation x) :: after) (some p) := by
  have hShift := Shift.land (x := x) (p := p) (List.forall_mem_nil _) hAfter
  exact hShift

variable [Scalar α] {effects : List (Effect α)} {landing : Option Placement} {s next : State α}

theorem stays (h : Shift scope x effects none) (hApply : s.applyAll effects = .ok next) :
    next.relations = s.relations := by
  cases h with
  | stay hWithin => exact (State.applyAll_within (x := x) hWithin hApply).1

/-- What is forgotten before and what is done within the scope changes nothing but the placement of `x`. -/
theorem frame_before {before : List (Effect α)}
    (hBefore : ∀ effect ∈ before, effect.Within scope ∨ ∃ old : Placement, effect = .unrelate (old.relation x)) :
    ∀ {s next : State α}, s.applyAll before = .ok next → State.Frame scope x s next := by
  induction before with
  | nil =>
    intro s next h
    cases h
    exact .refl s
  | cons effect rest ih =>
    intro s next h
    obtain ⟨middle, hFirst, hRest⟩ := State.applyAll_cons h
    have hFrame : State.Frame scope x s middle := by
      rcases hBefore effect (by simp) with hWithin | ⟨old, rfl⟩
      · exact (State.apply_within hWithin hFirst).2
      · exact State.apply_unrelate_frame hFirst
    exact hFrame.trans (ih (fun e he => hBefore e (by simp [he])) hRest)

/-- A batch that puts `x` somewhere leaves it there, and the rest in its frame. -/
theorem lands {p : Placement} (h : Shift scope x effects (some p)) (hApply : s.applyAll effects = .ok next) :
    p.relation x ∈ next.relations ∧ State.Frame scope x s next := by
  cases h with
  | land hBefore hAfter =>
    obtain ⟨forgotten, hForgotten, hRest⟩ := State.applyAll_append hApply
    obtain ⟨placed, hPlaced, hLast⟩ := State.applyAll_cons hRest
    obtain ⟨hMem, hFrame⟩ := State.apply_relate_frame hPlaced
    obtain ⟨hKept, hFrameLast⟩ := State.applyAll_within (x := x) hAfter hLast
    rw [hKept]
    exact ⟨hMem, (frame_before hBefore hForgotten).trans (hFrame.trans hFrameLast)⟩

theorem frame (h : Shift scope x effects landing) (hApply : s.applyAll effects = .ok next) :
    State.Frame scope x s next := by
  cases landing with
  | none =>
    cases h with
    | stay hWithin => exact (State.applyAll_within hWithin hApply).2
  | some p => exact (h.lands hApply).2

/-- Who had a placement has exactly one, if the state after the batch is sound. -/
theorem placed (h : Shift scope x effects landing) (hApply : s.applyAll effects = .ok next) (hSound : next.Sound)
    {entity : EntityId} (hPlaced : 0 < s.placements entity) : next.placements entity = 1 := by
  refine Nat.le_antisymm (hSound.placedOnce entity) (State.placements_pos_iff.mpr ?_)
  obtain ⟨r, hr, hPlaces⟩ := State.placements_pos_iff.mp hPlaced
  by_cases hSubject : x = entity
  · subst hSubject
    -- `x` stays where it was, or has a place from the batch
    cases landing with
    | none => exact ⟨r, (h.stays hApply) ▸ hr, hPlaces⟩
    | some p => exact ⟨_, (h.lands hApply).1, by simp⟩
  · obtain ⟨p, rfl⟩ := Relation.eq_relation_of_places hPlaces
    refine ⟨_, ((h.frame hApply).relations _ ?_).mpr hr, hPlaces⟩
    simp [Ne.symm hSubject]

end Shift

namespace World

variable [Scalar α]

/-- What an accepted batch sets last has its value afterwards. -/
theorem level?_of_getLast? {w next : World α} {effects : List (Effect α)} (h : w.applyEffects effects = .ok next)
    {entity : EntityId} {key : ResourceKey} {value : α}
    (hLast : effects.getLast? = some (.setLevel entity key value)) : next.level? entity key = some value := by
  obtain ⟨-, staged, hStaged, -, rfl⟩ := applyEffects_eq_ok_iff.mp h
  obtain ⟨before, rfl⟩ := List.getLast?_eq_some_iff.mp hLast
  obtain ⟨middle, -, hSet⟩ := State.apply_of_applyAll_concat hStaged
  cases hSet
  exact OrderedMap.get?_insert_self _ _ _

/-- After an accepted batch that puts `x` somewhere, `x` is there and nowhere else, and all others are where they were. -/
theorem holds_of_shift_iff {scope : Scope} {x : EntityId} {effects : List (Effect α)} {landing : Option Placement}
    {w next : World α} (hSound : w.Sound) (hShift : Shift scope x effects landing)
    (h : w.applyEffects effects = .ok next) (entity : EntityId) (p : Placement) :
    next.holds (p.relation entity) = true ↔
      (entity = x ∧ landing = some p) ∨ ((entity = x → landing = none) ∧ w.holds (p.relation entity) = true) := by
  have hNext : next.Sound := applyEffects_sound hSound h
  obtain ⟨-, staged, hStaged, -, rfl⟩ := applyEffects_eq_ok_iff.mp h
  cases landing with
  | none => simp [holds, hShift.stays hStaged]
  | some q =>
    obtain ⟨hLanded, hFrame⟩ := hShift.lands hStaged
    by_cases hSubject : entity = x
    · subst hSubject
      simpa [holds] using hNext.state.relation_mem_iff hLanded p
    · have hSame := hFrame.relations (p.relation entity) (by simp [hSubject])
      simp [holds, hSame, hSubject]

end World

end PlanReplay

import PlanReplay.Domain.Rejection
import PlanReplay.Proofs.World.FullCheck
import PlanReplay.Proofs.World.Initial
import PlanReplay.Proofs.World.Shift

/-!
# What a batch can see

A batch of effects reads and checks what is about the entities that it names. Two worlds that differ only in what is
about others, in the relations that place them and in their own facts and levels, accept the batch alike and are
afterwards no more different; or they refuse it with the same violation.

* `State.SameBut`, `World.SameBut` — the difference between two states and between two worlds.
* `Alike` — two attempts that fail alike, or succeed with results that correspond.
* `State.SameBut.violation?_eq` — the check of entities finds the same violation.
* `World.SameBut.applyEffects_alike`, `World.SameBut.attempt_alike` — batches and attempts.
* `World.SameBut.eq` — worlds that differ in what is about some, and in what is about others, are the same.
-/

namespace PlanReplay

open Std

variable {α : Type}

-- ---------------------------------------------------------------------------
-- Parts of sets and maps
-- ---------------------------------------------------------------------------

/-- A search finds the same in two lists that differ only in what it passes over. -/
theorem findSome?_eq_of_filter_eq {β γ : Type} {find : β → Option γ} {keep : β → Bool} {list list' : List β}
    (hRest : ∀ b, keep b = false → find b = none) (h : list'.filter keep = list.filter keep) :
    list'.findSome? find = list.findSome? find := by
  rw [← findSome?_filter_eq fun b _ => hRest b, h, findSome?_filter_eq fun b _ => hRest b]

/-- Sets that have the same members of a sort list them in the same order. -/
theorem OrderedSet.filter_toList_congr {β : Type} [Ord β] [LawfulEqOrd β] [TransOrd β] [DecidableEq β]
    {s s' : OrderedSet β} {keep : β → Bool} (h : ∀ b, keep b = true → (b ∈ s' ↔ b ∈ s)) :
    s'.toList.filter keep = s.toList.filter keep := by
  have hSame : s'.filter keep = s.filter keep := by
    refine OrderedSet.ext fun b => ?_
    rw [OrderedSet.mem_filter, OrderedSet.mem_filter]
    exact and_congr_left (h b)
  exact congrArg OrderedSet.toList hSame

/-- Maps that have the same values of some keys list these entries in the same order. -/
theorem OrderedMap.filter_toList_congr {κ ν : Type} [Ord κ] [LawfulEqOrd κ] [TransOrd κ] [DecidableEq κ]
    {m m' : OrderedMap κ ν} (keep : κ → Bool) (h : ∀ k, keep k = true → m'.get? k = m.get? k) :
    (m'.toList.filter fun entry => keep entry.1) = m.toList.filter fun entry => keep entry.1 := by
  refine eq_of_ascending (fun entry => compare_ne_lt entry.1) TransCmp.lt_trans (m'.ascending.filter _)
    (m.ascending.filter _) ?_
  rintro ⟨k, value⟩
  rw [List.mem_filter, List.mem_filter, OrderedMap.mem_toList_iff, OrderedMap.mem_toList_iff]
  exact and_congr_left fun hKeep => by rw [h k hKeep]

-- ---------------------------------------------------------------------------
-- Differences
-- ---------------------------------------------------------------------------

/-- The states are the same but for what is about one of `others`: the relations that place it, and the facts and levels
of it alone. -/
structure State.SameBut (others : List EntityId) (s s' : State α) : Prop where
  relations : ∀ r, (∀ x ∈ others, r.places x = false) → (r ∈ s'.relations ↔ r ∈ s.relations)
  facts : ∀ fact, (∀ x ∈ others, fact.args ≠ [x]) → (fact ∈ s'.facts ↔ fact ∈ s.facts)
  fluents : ∀ fluent, (∀ x ∈ others, fluent.args ≠ [x]) → s'.fluents.get? fluent = s.fluents.get? fluent

namespace State

variable {others : List EntityId} {s s' : State α}

namespace SameBut

theorem refl (s : State α) : SameBut others s s := ⟨fun _ _ => Iff.rfl, fun _ _ => Iff.rfl, fun _ _ => rfl⟩

theorem symm (h : SameBut others s s') : SameBut others s' s :=
  ⟨fun r hr => (h.relations r hr).symm, fun fact hFact => (h.facts fact hFact).symm,
    fun fluent hFluent => (h.fluents fluent hFluent).symm⟩

theorem trans {s'' : State α} (h : SameBut others s s') (h' : SameBut others s' s'') : SameBut others s s'' :=
  ⟨fun r hr => (h'.relations r hr).trans (h.relations r hr),
    fun fact hFact => (h'.facts fact hFact).trans (h.facts fact hFact),
    fun fluent hFluent => (h'.fluents fluent hFluent).trans (h.fluents fluent hFluent)⟩

/-- What differs only in what is about some, and only in what is about others, is the same: nothing is about two. -/
theorem eq {first second : List EntityId} (hDisjoint : ∀ x ∈ first, x ∉ second) (h : SameBut first s s')
    (h' : SameBut second s s') : s' = s := by
  have hArgs : ∀ args : List EntityId, (∀ x ∈ first, args ≠ [x]) ∨ ∀ x ∈ second, args ≠ [x] := by
    intro args
    by_cases hFirst : ∃ x ∈ first, args = [x]
    · obtain ⟨x, hx, rfl⟩ := hFirst
      refine Or.inr fun y hy hSame => hDisjoint x hx ?_
      cases hSame
      exact hy
    · exact Or.inl fun x hx hSame => hFirst ⟨x, hx, hSame⟩
  have hPlaces : ∀ r : Relation, (∀ x ∈ first, r.places x = false) ∨ ∀ x ∈ second, r.places x = false := by
    intro r
    by_cases hFirst : ∃ x ∈ first, r.places x = true
    · obtain ⟨x, hx, hHere⟩ := hFirst
      obtain ⟨p, rfl⟩ := Relation.eq_relation_of_places hHere
      refine Or.inr fun y hy => ?_
      rw [Placement.places_relation, decide_eq_false_iff_not]
      rintro rfl
      exact hDisjoint x hx hy
    · exact Or.inl fun x hx => Bool.eq_false_iff.mpr fun hHere => hFirst ⟨x, hx, hHere⟩
  have hRelations : s'.relations = s.relations := OrderedSet.ext fun r => (hPlaces r).elim (h.relations r) (h'.relations r)
  have hFacts : s'.facts = s.facts := OrderedSet.ext fun f => (hArgs f.args).elim (h.facts f) (h'.facts f)
  have hFluents : s'.fluents = s.fluents := OrderedMap.ext fun f => (hArgs f.args).elim (h.fluents f) (h'.fluents f)
  cases s
  cases s'
  congr

/-- A batch that changes the placement of one entity, and levels and facts of movers, makes a difference in what is about
these. -/
theorem of_frame {scope : Scope} {x : EntityId} (h : Frame scope x s s') (hSubject : x ∈ others)
    (hMover : ∀ mover, scope.mover? = some mover → mover ∈ others)
    (hFacts : ∀ fact ∈ scope.facts, ∃ mover ∈ others, fact.args = [mover]) : SameBut others s s' := by
  refine ⟨fun r hr => h.relations r (hr x hSubject), ?_, ?_⟩
  · intro fact hOther
    refine h.facts fact fun hFact => ?_
    obtain ⟨mover, hIn, hArgs⟩ := hFacts fact hFact
    exact hOther mover hIn hArgs
  · intro fluent hOther
    refine h.fluents fluent ?_
    rintro ⟨mover, hCovers, hArgs⟩
    exact hOther mover (hMover mover hCovers) hArgs

-- ---------------------------------------------------------------------------
-- Views
-- ---------------------------------------------------------------------------

/-- A relation between entities that are not among the others. -/
theorem mem_relations (h : SameBut others s s') {r : Relation} (hSubject : r.subject ∉ others)
    (hObject : r.object ∉ others) : r ∈ s'.relations ↔ r ∈ s.relations := by
  refine h.relations r fun x hx => Bool.eq_false_iff.mpr fun hPlaces => ?_
  rcases Relation.about_of_places hPlaces with rfl | rfl
  · exact hSubject hx
  · exact hObject hx

/-- The objects of an entity that is not among the others. Whom it carries is told by who is carried. -/
theorem related_eq (h : SameBut others s s') (kind : RelationKind) (hKind : kind ≠ .carries) {subject : EntityId}
    (hSubject : subject ∉ others) : s'.related kind subject = s.related kind subject := by
  refine congrArg (List.map (·.object)) (OrderedSet.filter_toList_congr fun r hr => h.relations r fun x hx => ?_)
  obtain ⟨rfl, rfl⟩ := of_decide_eq_true hr
  have hDiffer : r.subject ≠ x := fun hSame => hSubject (hSame ▸ hx)
  unfold Relation.places
  cases hCase : r.kind with
  | isAt | isIn => exact decide_eq_false hDiffer
  | carries => exact absurd hCase hKind
  | above | connected | target => rfl

/-- Who carries an entity that is not among the others. -/
theorem carriers_eq (h : SameBut others s s') {object : EntityId} (hObject : object ∉ others) :
    s'.subjectsOf .carries object = s.subjectsOf .carries object := by
  refine congrArg (List.map (·.subject)) (OrderedSet.filter_toList_congr fun r hr => h.relations r fun x hx => ?_)
  obtain ⟨hKind, rfl⟩ := of_decide_eq_true hr
  have hDiffer : r.object ≠ x := fun hSame => hObject (hSame ▸ hx)
  unfold Relation.places
  rw [hKind]
  exact decide_eq_false hDiffer

/-- A level of an entity that is not among the others. -/
theorem level?_eq (h : SameBut others s s') {entity : EntityId} (hEntity : entity ∉ others) (key : ResourceKey) :
    s'.level? entity key = s.level? entity key := by
  refine h.fluents ⟨key, [entity]⟩ fun x hx hSame => hEntity ?_
  cases hSame
  exact hx

variable [Scalar α]

/-- The check of an entity that is not among the others. -/
theorem entityViolation?_eq (h : SameBut others s s') {entity : EntityId} (hEntity : entity ∉ others) :
    s'.entityViolation? entity = s.entityViolation? entity := by
  unfold entityViolation? functionalViolation? limitViolation? placements
  rw [h.related_eq .isAt nofun hEntity, h.related_eq .isIn nofun hEntity, h.related_eq .target nofun hEntity,
    h.carriers_eq hEntity]
  simp only [h.level?_eq hEntity]

/-- A check of entities that are not among the others finds the same. -/
theorem violation?_eq (h : SameBut others s s') {touched : List EntityId} (hTouched : ∀ id ∈ touched, id ∉ others) :
    s'.violation? touched = s.violation? touched := by
  unfold violation?
  rw [findSome?_congr fun id hId => h.entityViolation?_eq (hTouched id hId)]
  -- a fluent of another entity alone is not looked at
  refine congrArg _ (findSome?_eq_of_filter_eq ?_ (OrderedMap.filter_toList_congr
    (fun fluent => decide (∀ x ∈ others, fluent.args ≠ [x]))
    fun fluent hFluent => h.fluents fluent (of_decide_eq_true hFluent)))
  rintro ⟨fluent, value⟩ hOther
  rw [decide_eq_false_iff_not] at hOther
  push Not at hOther
  obtain ⟨x, hx, hArgs⟩ := hOther
  refine if_neg ?_
  rw [hArgs]
  rintro (hNone | ⟨arg, hArg, hIn⟩)
  · cases hNone
  · exact hTouched arg hIn (List.mem_singleton.mp hArg ▸ hx)

end SameBut

end State

-- ---------------------------------------------------------------------------
-- Batches
-- ---------------------------------------------------------------------------

/-- Two attempts that fail alike, or succeed with results that correspond. -/
inductive Alike {ε β : Type} (corresponds : β → β → Prop) : Except ε β → Except ε β → Prop where
  | ok {b b' : β} (h : corresponds b b') : Alike corresponds (.ok b) (.ok b')
  | error (e : ε) : Alike corresponds (.error e) (.error e)

namespace State.SameBut

variable [Scalar α] {others : List EntityId} {s s' : State α}

/-- An effect that names none of the others. -/
theorem apply_alike (h : SameBut others s s') {effect : Effect α} (hTouched : ∀ id ∈ effect.touched, id ∉ others) :
    Alike (SameBut others) (s.apply effect) (s'.apply effect) := by
  cases effect with
  | relate relation =>
    refine .ok ⟨?_, h.facts, h.fluents⟩
    intro r hr
    rw [mem_relate_iff, mem_relate_iff, h.relations r hr]
  | unrelate relation =>
    have hHolds : relation ∈ s'.relations ↔ relation ∈ s.relations :=
      h.mem_relations (hTouched _ (by simp [Effect.touched])) (hTouched _ (by simp [Effect.touched]))
    unfold apply
    simp only [hHolds]
    split
    · refine .ok ⟨?_, h.facts, h.fluents⟩
      intro r hr
      rw [OrderedSet.mem_erase, OrderedSet.mem_erase, h.relations r hr]
    · exact .error _
  | assign fluent value =>
    refine .ok ⟨h.relations, h.facts, ?_⟩
    intro other hOther
    rw [OrderedMap.get?_insert, OrderedMap.get?_insert, h.fluents other hOther]
  | adjust entity key delta =>
    unfold apply
    dsimp only
    rw [h.level?_eq (hTouched entity (by simp [Effect.touched]))]
    split
    · refine .ok ⟨h.relations, h.facts, ?_⟩
      intro other hOther
      rw [OrderedMap.get?_insert, OrderedMap.get?_insert, h.fluents other hOther]
    · exact .error _
  | assert fact =>
    refine .ok ⟨h.relations, ?_, h.fluents⟩
    intro other hOther
    rw [OrderedSet.mem_insert, OrderedSet.mem_insert, h.facts other hOther]
  | retract fact =>
    have hHolds : fact ∈ s'.facts ↔ fact ∈ s.facts := by
      refine h.facts fact fun x hx hArgs => hTouched x ?_ hx
      rw [Effect.touched, hArgs]
      exact List.mem_singleton_self x
    unfold apply
    simp only [hHolds]
    split
    · refine .ok ⟨h.relations, ?_, h.fluents⟩
      intro other hOther
      rw [OrderedSet.mem_erase, OrderedSet.mem_erase, h.facts other hOther]
    · exact .error _

/-- Effects that name none of the others. -/
theorem applyAll_alike {effects : List (Effect α)} (hTouched : ∀ effect ∈ effects, ∀ id ∈ effect.touched, id ∉ others) :
    ∀ {s s' : State α}, SameBut others s s' → Alike (SameBut others) (s.applyAll effects) (s'.applyAll effects) := by
  induction effects with
  | nil => exact fun h => .ok h
  | cons effect rest ih =>
    intro s s' h
    rw [List.forall_mem_cons] at hTouched
    have hFirst := h.apply_alike hTouched.1
    unfold applyAll
    generalize s.apply effect = outcome at hFirst
    generalize s'.apply effect = outcome' at hFirst
    cases hFirst with
    | ok hNext => exact ih hTouched.2 hNext
    | error violation => exact .error violation

end State.SameBut

/-- The worlds have the same entities, and their states differ in what is about one of `others` at most. -/
structure World.SameBut (others : List EntityId) (w w' : World α) : Prop where
  entities : w'.entities = w.entities
  state : w.state.SameBut others w'.state

namespace World.SameBut

variable {others : List EntityId} {w w' : World α}

theorem refl (w : World α) : SameBut others w w := ⟨rfl, .refl w.state⟩

theorem symm (h : SameBut others w w') : SameBut others w' w := ⟨h.entities.symm, h.state.symm⟩

theorem trans {w'' : World α} (h : SameBut others w w') (h' : SameBut others w' w'') : SameBut others w w'' :=
  ⟨h'.entities.trans h.entities, h.state.trans h'.state⟩

theorem eq {first second : List EntityId} (hDisjoint : ∀ x ∈ first, x ∉ second) (h : SameBut first w w')
    (h' : SameBut second w w') : w' = w := by
  have hEntities := h.entities
  have hState := h.state.eq hDisjoint h'.state
  cases w
  cases w'
  congr

theorem contains_eq (h : SameBut others w w') (id : EntityId) : w'.contains id = w.contains id := by
  unfold contains
  rw [h.entities]

/-- A relation between entities that are not among the others. -/
theorem holds_eq (h : SameBut others w w') {r : Relation} (hSubject : r.subject ∉ others) (hObject : r.object ∉ others) :
    w'.holds r = w.holds r :=
  decide_eq_decide.mpr (h.state.mem_relations hSubject hObject)

/-- Whether any relation of a kind that places nobody holds. -/
theorem hasRelations_eq (h : SameBut others w w') {kind : RelationKind}
    (hNobody : ∀ r : Relation, r.kind = kind → ∀ x, r.places x = false) :
    w'.hasRelations kind = w.hasRelations kind := by
  rw [Bool.eq_iff_iff]
  simp only [hasRelations, relations, List.any_eq_true, decide_eq_true_eq, OrderedSet.mem_toList]
  exact exists_congr fun r => and_congr_left fun hKind => h.state.relations r fun x _ => hNobody r hKind x

/-- The first object of an entity that is not among the others. -/
theorem related?_eq (h : SameBut others w w') (kind : RelationKind) (hKind : kind ≠ .carries) {subject : EntityId}
    (hSubject : subject ∉ others) : w'.related? kind subject = w.related? kind subject :=
  congrArg List.head? (h.state.related_eq kind hKind hSubject)

/-- A level of an entity that is not among the others. -/
theorem level?_eq (h : SameBut others w w') {entity : EntityId} (hEntity : entity ∉ others) (key : ResourceKey) :
    w'.level? entity key = w.level? entity key :=
  h.state.level?_eq hEntity key

/-- A fact about an entity that is not among the others. -/
theorem hasFact_eq (h : SameBut others w w') {entity : EntityId} (hEntity : entity ∉ others) (name : String) :
    w'.hasFact ⟨name, [entity]⟩ = w.hasFact ⟨name, [entity]⟩ := by
  refine decide_eq_decide.mpr (h.state.facts _ fun x hx hSame => hEntity ?_)
  cases hSame
  exact hx

/-- A fluent of two entities. -/
theorem fluent?_pair_eq (h : SameBut others w w') (key : ResourceKey) (first second : EntityId) :
    w'.fluent? key [first, second] = w.fluent? key [first, second] :=
  h.state.fluents _ fun _ _ => nofun

/-- The facts that are not about one entity alone, in their order. -/
theorem facts_eq (h : SameBut others w w') :
    (w'.facts.filter fun fact => fact.args.length ≠ 1) = w.facts.filter fun fact => fact.args.length ≠ 1 := by
  refine OrderedSet.filter_toList_congr fun fact hFact => h.state.facts fact fun x _ hArgs => ?_
  rw [hArgs] at hFact
  exact absurd hFact (by simp)

variable [Scalar α]

/-- A batch that names none of the others. -/
theorem applyEffects_alike (h : SameBut others w w') {effects : List (Effect α)}
    (hTouched : ∀ effect ∈ effects, ∀ id ∈ effect.touched, id ∉ others) :
    Alike (SameBut others) (w.applyEffects effects) (w'.applyEffects effects) := by
  have hClear : ∀ id ∈ (OrderedSet.ofList (touchedBy effects)).toList, id ∉ others := by
    intro id hId
    obtain ⟨effect, hEffect, hNamed⟩ := List.mem_flatMap.mp (OrderedSet.mem_ofList.mp hId)
    exact hTouched effect hEffect id hNamed
  have hStaged := State.SameBut.applyAll_alike hTouched h.state
  unfold applyEffects
  simp only [h.contains_eq]
  split
  · exact .error _
  · generalize w.state.applyAll effects = outcome at hStaged
    generalize w'.state.applyAll effects = outcome' at hStaged
    cases hStaged with
    | error violation => exact .error _
    | ok hNext =>
      dsimp only
      rw [hNext.violation?_eq hClear]
      split
      · exact .error _
      · exact .ok ⟨h.entities, hNext⟩

/-- An attempt whose preconditions yield the same, and whose effects name none of the others. -/
theorem attempt_alike (h : SameBut others w w') (referenced : List EntityId)
    {effects effects' : Except (Failure (Violation α)) (List (Effect α))} (hSame : effects' = effects)
    (hTouched : ∀ batch, effects = .ok batch → ∀ effect ∈ batch, ∀ id ∈ effect.touched, id ∉ others) :
    Alike (SameBut others) (w.attempt referenced effects) (w'.attempt referenced effects') := by
  subst hSame
  unfold attempt
  simp only [h.contains_eq]
  split
  · exact .error _
  · cases effects' with
    | error failure => cases failure <;> exact .error _
    | ok batch =>
      have hApplied := h.applyEffects_alike (hTouched batch rfl)
      dsimp only
      generalize w.applyEffects batch = outcome at hApplied
      generalize w'.applyEffects batch = outcome' at hApplied
      cases hApplied with
      | ok hNext => exact .ok hNext
      | error violation => exact .error _

end World.SameBut

end PlanReplay

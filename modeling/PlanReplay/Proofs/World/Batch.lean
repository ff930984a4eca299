import PlanReplay.Proofs.World.Placement

/-!
# What a batch of effects adds

A batch names the entities it touches. Whatever a staged state holds and the state before it did not hold is
about touched entities only; this is the frame of a batch, `State.GrowsWithin`, and it is what makes a check
of the touched entities enough.

* `State.apply_growsWithin`, `State.applyAll_growsWithin` — the frame of one effect and of a batch.
* `State.applyAll_functional` — functional kinds stay functional, whatever the batch is: a new object of a
  subject takes the place of the old one.
-/

namespace PlanReplay

variable {α : Type}

namespace State

-- ---------------------------------------------------------------------------
-- The frame of a batch
-- ---------------------------------------------------------------------------

/-- What `next` holds and `s` does not hold is about `touched` entities only. -/
structure GrowsWithin (s next : State α) (touched : List EntityId) : Prop where
  relations : ∀ r ∈ next.relations, r ∈ s.relations ∨ (r.subject ∈ touched ∧ r.object ∈ touched)
  facts : ∀ fact ∈ next.facts, fact ∈ s.facts ∨ ∀ id ∈ fact.args, id ∈ touched
  fluents : ∀ fluent value, next.fluents.get? fluent = some value →
    s.fluents.get? fluent = some value ∨ ∀ id ∈ fluent.args, id ∈ touched

theorem GrowsWithin.refl (s : State α) (touched : List EntityId) : s.GrowsWithin s touched :=
  ⟨fun _ h => Or.inl h, fun _ h => Or.inl h, fun _ _ h => Or.inl h⟩

/-- More entities may count as touched. -/
theorem GrowsWithin.mono {s next : State α} {touched more : List EntityId} (h : s.GrowsWithin next touched)
    (hMore : ∀ id, id ∈ touched → id ∈ more) : s.GrowsWithin next more :=
  ⟨fun r hr => (h.relations r hr).imp_right fun ⟨hSubject, hObject⟩ => ⟨hMore _ hSubject, hMore _ hObject⟩,
    fun fact hFact => (h.facts fact hFact).imp_right fun hNew id hid => hMore id (hNew id hid),
    fun fluent value hFluent => (h.fluents fluent value hFluent).imp_right fun hNew id hid => hMore id (hNew id hid)⟩

/-- Growth adds up, and so do the touched entities. -/
theorem GrowsWithin.trans {s middle next : State α} {first second : List EntityId}
    (h : s.GrowsWithin middle first) (h' : middle.GrowsWithin next second) :
    s.GrowsWithin next (first ++ second) := by
  refine ⟨?_, ?_, ?_⟩
  · intro r hr
    rcases h'.relations r hr with hMiddle | ⟨hSubject, hObject⟩
    · rcases h.relations r hMiddle with hOld | ⟨hSubject, hObject⟩
      · exact Or.inl hOld
      · exact Or.inr ⟨List.mem_append_left _ hSubject, List.mem_append_left _ hObject⟩
    · exact Or.inr ⟨List.mem_append_right _ hSubject, List.mem_append_right _ hObject⟩
  · intro fact hFact
    rcases h'.facts fact hFact with hMiddle | hNew
    · rcases h.facts fact hMiddle with hOld | hNew
      · exact Or.inl hOld
      · exact Or.inr fun id hid => List.mem_append_left _ (hNew id hid)
    · exact Or.inr fun id hid => List.mem_append_right _ (hNew id hid)
  · intro fluent value hFluent
    rcases h'.fluents fluent value hFluent with hMiddle | hNew
    · rcases h.fluents fluent value hMiddle with hOld | hNew
      · exact Or.inl hOld
      · exact Or.inr fun id hid => List.mem_append_left _ (hNew id hid)
    · exact Or.inr fun id hid => List.mem_append_right _ (hNew id hid)

/-- A relation held after another one is related is that one or was held before. -/
theorem mem_relate {relations : OrderedSet Relation} {added r : Relation} (h : r ∈ relate relations added) :
    r = added ∨ r ∈ relations := by
  unfold relate at h
  rw [OrderedSet.mem_insert] at h
  rcases h with rfl | h
  · exact Or.inl rfl
  · split at h
    · exact Or.inr (OrderedSet.mem_filter.mp h).1
    · exact Or.inr h

/-- A fluent read after one of them is set is that one or has its old value. -/
theorem get?_insert_fluent {fluents : OrderedMap Fluent α} {set fluent : Fluent} {given value : α}
    (h : (fluents.insert set given).get? fluent = some value) :
    fluents.get? fluent = some value ∨ fluent = set := by
  rw [OrderedMap.get?_insert] at h
  split at h
  · exact Or.inr ‹_›
  · exact Or.inl h

variable [Scalar α]

/-- One effect adds nothing but what is about the entities it names. -/
theorem apply_growsWithin {s next : State α} {effect : Effect α} (h : s.apply effect = .ok next) :
    s.GrowsWithin next effect.touched := by
  cases effect with
  | relate added =>
    simp only [apply, Except.ok.injEq] at h
    subst h
    refine ⟨?_, fun _ h => Or.inl h, fun _ _ h => Or.inl h⟩
    intro r hr
    rcases mem_relate hr with rfl | hOld
    · exact Or.inr ⟨by simp [Effect.touched], by simp [Effect.touched]⟩
    · exact Or.inl hOld
  | unrelate removed =>
    simp only [apply] at h
    split at h
    · cases h
      exact ⟨fun r hr => Or.inl (OrderedSet.mem_erase.mp hr).1, fun _ h => Or.inl h, fun _ _ h => Or.inl h⟩
    · cases h
  | assign set given =>
    simp only [apply, Except.ok.injEq] at h
    subst h
    refine ⟨fun _ h => Or.inl h, fun _ h => Or.inl h, ?_⟩
    intro fluent value hFluent
    rcases get?_insert_fluent hFluent with hOld | rfl
    · exact Or.inl hOld
    · exact Or.inr fun _ hid => hid
  | adjust entity key delta =>
    simp only [apply] at h
    split at h
    · cases h
      refine ⟨fun _ h => Or.inl h, fun _ h => Or.inl h, ?_⟩
      intro fluent value hFluent
      rcases get?_insert_fluent hFluent with hOld | rfl
      · exact Or.inl hOld
      · exact Or.inr fun _ hid => hid
    · cases h
  | assert added =>
    simp only [apply, Except.ok.injEq] at h
    subst h
    refine ⟨fun _ h => Or.inl h, ?_, fun _ _ h => Or.inl h⟩
    intro fact hFact
    rcases OrderedSet.mem_insert.mp hFact with rfl | hOld
    · exact Or.inr fun _ hid => hid
    · exact Or.inl hOld
  | retract removed =>
    simp only [apply] at h
    split at h
    · cases h
      exact ⟨fun _ h => Or.inl h, fun f hf => Or.inl (OrderedSet.mem_erase.mp hf).1, fun _ _ h => Or.inl h⟩
    · cases h

/-- A batch is staged one effect after the other. -/
theorem applyAll_cons {s next : State α} {effect : Effect α} {rest : List (Effect α)}
    (h : s.applyAll (effect :: rest) = .ok next) :
    ∃ middle, s.apply effect = .ok middle ∧ middle.applyAll rest = .ok next := by
  rw [applyAll] at h
  split at h
  · exact ⟨_, ‹_›, h⟩
  · cases h

/-- A batch adds nothing but what is about the entities it names. -/
theorem applyAll_growsWithin {effects : List (Effect α)} :
    ∀ {s next : State α}, s.applyAll effects = .ok next → s.GrowsWithin next (World.touchedBy effects) := by
  induction effects with
  | nil =>
    intro s next h
    simp only [applyAll, Except.ok.injEq] at h
    rw [← h]
    exact GrowsWithin.refl _ _
  | cons effect rest ih =>
    intro s next h
    obtain ⟨middle, hFirst, hRest⟩ := applyAll_cons h
    exact (apply_growsWithin hFirst).trans (ih hRest)

-- ---------------------------------------------------------------------------
-- Functional kinds
-- ---------------------------------------------------------------------------

omit [Scalar α] in
/-- A state with fewer relations stays functional. -/
theorem Functional.mono {s next : State α} (h : s.Functional) (hLess : ∀ r ∈ next.relations, r ∈ s.relations) :
    next.Functional :=
  fun a ha b hb => h a (hLess a ha) b (hLess b hb)

/-- No effect gives a subject a second object of a functional kind. -/
theorem apply_functional {s next : State α} {effect : Effect α} (hFunctional : s.Functional)
    (h : s.apply effect = .ok next) : next.Functional := by
  cases effect with
  | relate added =>
    simp only [apply, Except.ok.injEq] at h
    subst h
    intro a ha b hb hKind hSubject hIs
    simp only [relate, OrderedSet.mem_insert] at ha hb
    rcases ha with rfl | ha
    · rcases hb with rfl | hb
      · rfl
      · -- the other relation of this kind and subject is not kept
        rw [if_pos hIs, OrderedSet.mem_filter] at hb
        simp [hKind, hSubject] at hb
    · rcases hb with rfl | hb
      · rw [if_pos (hKind ▸ hIs), OrderedSet.mem_filter] at ha
        simp [hKind, hSubject] at ha
      · have hKept : ∀ r ∈ (if added.kind.isFunctional = true then
            s.relations.filter fun r => ¬(r.kind = added.kind ∧ r.subject = added.subject) else s.relations),
            r ∈ s.relations := by
          intro r hr
          split at hr
          · exact (OrderedSet.mem_filter.mp hr).1
          · exact hr
        exact hFunctional a (hKept a ha) b (hKept b hb) hKind hSubject hIs
  | unrelate removed =>
    simp only [apply] at h
    split at h
    · cases h
      exact hFunctional.mono fun r hr => (OrderedSet.mem_erase.mp hr).1
    · cases h
  | assign set given =>
    simp only [apply, Except.ok.injEq] at h
    exact h ▸ hFunctional
  | adjust entity key delta =>
    simp only [apply] at h
    split at h
    · cases h
      exact hFunctional
    · cases h
  | assert added =>
    simp only [apply, Except.ok.injEq] at h
    exact h ▸ hFunctional
  | retract removed =>
    simp only [apply] at h
    split at h
    · cases h
      exact hFunctional
    · cases h

/-- No batch gives a subject a second object of a functional kind. -/
theorem applyAll_functional {effects : List (Effect α)} :
    ∀ {s next : State α}, s.Functional → s.applyAll effects = .ok next → next.Functional := by
  induction effects with
  | nil =>
    intro s next hFunctional h
    simp only [applyAll, Except.ok.injEq] at h
    exact h ▸ hFunctional
  | cons effect rest ih =>
    intro s next hFunctional h
    obtain ⟨middle, hFirst, hRest⟩ := applyAll_cons h
    exact ih (apply_functional hFunctional hFirst) hRest

end State

end PlanReplay

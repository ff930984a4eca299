import PlanReplay.Proofs.Problem.Listed
import PlanReplay.Proofs.World.Invariant

/-!
# The initial world of a problem

The predicates and assignments of a problem are applied one after the other. Of several that concern the same thing
the last one counts: the last object of a subject, where the kind of relation is functional, the last value of a
fluent, and the last declaration of an object.

* `Atom.relation?`, `Atom.fact`, `Assignment.fluent` — what the entries of a problem stand for.
* `World.ofProblem_eq_ok` — the initial world, described by the lists of a problem.
* `World.holds_ofProblem_iff`, `World.hasFact_ofProblem_iff`, `World.fluent?_ofProblem` — what holds in it.
* `World.ofProblem_settles` — what is lost, and what is refused.
-/

namespace PlanReplay

open Text

-- ---------------------------------------------------------------------------
-- The last entry counts
-- ---------------------------------------------------------------------------

namespace OrderedMap

variable {κ ν β : Type} [Ord κ] [DecidableEq κ] [Std.LawfulEqOrd κ] [Std.TransOrd κ]

/-- A map that is filled from a list has the last value that the list gives to a key. -/
theorem get?_foldl_insert (key : β → κ) (value : β → ν) (list : List β) (m : OrderedMap κ ν) (k : κ) :
    (list.foldl (fun m b => m.insert (key b) (value b)) m).get? k =
      ((list.filter fun b => key b = k).getLast?.map value).or (m.get? k) := by
  induction list using List.reverseRecOn with
  | nil => simp
  | append_singleton before last ih =>
    rw [List.foldl_append, List.foldl_cons, List.foldl_nil, get?_insert, List.filter_append]
    by_cases hKey : key last = k
    · simp [hKey]
    · simp [hKey, Ne.symm hKey, ih]

end OrderedMap

/-- Two relations that give one subject different objects of a functional kind. -/
def Relation.Contradicts (r s : Relation) : Prop :=
  r.kind = s.kind ∧ r.kind.isFunctional = true ∧ r.subject = s.subject ∧ r.object ≠ s.object

/-- Different relations of one kind and subject have different objects. -/
theorem Relation.contradicts_iff {r s : Relation} : r.Contradicts s ↔
    r.kind = s.kind ∧ r.kind.isFunctional = true ∧ r.subject = s.subject ∧ r ≠ s := by
  obtain ⟨kind, subject, object⟩ := r
  obtain ⟨kind', subject', object'⟩ := s
  simp only [Contradicts, ne_eq, mk.injEq, not_and]
  constructor
  · rintro ⟨hKind, hFunctional, hSubject, hObject⟩
    exact ⟨hKind, hFunctional, hSubject, fun _ _ => hObject⟩
  · rintro ⟨hKind, hFunctional, hSubject, hOther⟩
    exact ⟨hKind, hFunctional, hSubject, hOther hKind hSubject⟩

instance (r s : Relation) : Decidable (r.Contradicts s) := inferInstanceAs (Decidable (_ ∧ _ ∧ _ ∧ _))

/-- What holds in place of a relation places the same entity. Only objects of functional kinds are replaced, and those
kinds place their subject. -/
theorem Relation.places_of_replaced {r s : Relation} {entity : EntityId} (h : r.places entity = true)
    (hKind : s.kind = r.kind) (hSubject : s.subject = r.subject) (hPlain : r.kind.isFunctional = false → s = r) :
    s.places entity = true := by
  cases hFunctional : r.kind.isFunctional with
  | false => exact hPlain hFunctional ▸ h
  | true =>
    unfold Relation.places at h ⊢
    rw [hKind, hSubject]
    cases hr : r.kind with
    | isAt | isIn => simpa [hr] using h
    | carries | above | connected | target => simp [hr, RelationKind.isFunctional] at h hFunctional

namespace State

/-- What a new relation contradicts is forgotten. -/
theorem mem_relate_iff {relations : OrderedSet Relation} {added r : Relation} :
    r ∈ relate relations added ↔ r = added ∨ (r ∈ relations ∧ ¬ added.Contradicts r) := by
  unfold relate
  rw [OrderedSet.mem_insert, Relation.contradicts_iff]
  refine or_congr_right' fun hOther => ?_
  by_cases hFunctional : added.kind.isFunctional = true
  · rw [if_pos hFunctional, OrderedSet.mem_filter, decide_eq_true_eq]
    have hDiffer : added ≠ r := Ne.symm hOther
    simp [hFunctional, hDiffer, eq_comm]
  · simp [hFunctional]

/-- Of the relations of a list those hold that are of no functional kind, or the last ones of their subject. -/
theorem mem_foldl_relate {list : List Relation} {r : Relation} :
    r ∈ list.foldl relate .empty ↔ r ∈ list ∧
      (r.kind.isFunctional = true →
        (list.filter fun s => s.kind = r.kind ∧ s.subject = r.subject).getLast? = some r) := by
  induction list using List.reverseRecOn with
  | nil => simp [OrderedSet.not_mem_empty]
  | append_singleton before last ih =>
    rw [List.foldl_append, List.foldl_cons, List.foldl_nil, mem_relate_iff, ih, List.filter_append,
      Relation.contradicts_iff]
    by_cases hLast : r = last
    · simp [hLast]
    · have hDiffer : last ≠ r := Ne.symm hLast
      by_cases hSame : last.kind = r.kind ∧ last.subject = r.subject
      · -- the last relation replaces the others of its kind and subject
        cases hFunctional : r.kind.isFunctional with
        | true => simp [hSame, hLast, hDiffer, hFunctional]
        | false => simp [hSame, hLast, hFunctional]
      · have hApart : ¬ (last.kind = r.kind ∧ last.kind.isFunctional = true ∧ last.subject = r.subject ∧ last ≠ r) :=
          fun h => hSame ⟨h.1, h.2.2.1⟩
        simp [hSame, hLast, hApart]

end State

-- ---------------------------------------------------------------------------
-- What the entries of a problem stand for
-- ---------------------------------------------------------------------------

/-- The relation that a predicate of two arguments can stand for. -/
def Atom.relation? (atom : Atom) : Option Relation :=
  match atom.args.map EntityId.ofName with
  | [subject, object] => (RelationKind.ofPredicate? (lower atom.name)).map fun kind => ⟨kind, subject, object⟩
  | _ => none

/-- What a predicate stands for that is no relation. -/
def Atom.fact (atom : Atom) : Fact := .ofName atom.name (atom.args.map .ofName)

/-- What an assignment gives a value to. -/
def Assignment.fluent (f : Assignment) : Fluent := ⟨.ofFunctionName f.name, f.args.map .ofName⟩

namespace Problem

/-- The relations that the predicates of a problem stand for, in their order. -/
def relations (p : Problem) : List Relation := p.predicates.filterMap Atom.relation?

/-- The facts that the other predicates stand for. -/
def facts (p : Problem) : List Fact := (p.predicates.filter fun atom => atom.relation? = none).map Atom.fact

/-- No subject is given two objects of a functional kind. -/
def Coherent (p : Problem) : Prop := ∀ r ∈ p.relations, ∀ s ∈ p.relations, ¬ r.Contradicts s

instance (p : Problem) : Decidable p.Coherent := inferInstanceAs (Decidable (∀ r ∈ _, ∀ s ∈ _, ¬ _))

/-- Two relations place one entity, and they do not give it two objects of one functional kind. -/
def PlacedTwice (p : Problem) : Prop :=
  ∃ entity, ∃ r ∈ p.relations, ∃ s ∈ p.relations, r.places entity = true ∧ s.places entity = true ∧ r ≠ s ∧
    ¬ r.Contradicts s

theorem mem_relations {p : Problem} {r : Relation} :
    r ∈ p.relations ↔ ∃ atom ∈ p.predicates, atom.relation? = some r := by
  simp [relations]

theorem mem_facts {p : Problem} {fact : Fact} :
    fact ∈ p.facts ↔ ∃ atom ∈ p.predicates, atom.relation? = none ∧ atom.fact = fact := by
  simp [facts, and_assoc]

end Problem

namespace World

variable {α : Type}

theorem predicateEffect_of_relation {atom : Atom} {r : Relation} (h : atom.relation? = some r) :
    (predicateEffect atom : Effect α) = .relate r := by
  unfold Atom.relation? at h
  split at h
  · rename_i subject object hArgs
    obtain ⟨kind, hKind, rfl⟩ := Option.map_eq_some_iff.mp h
    simp [predicateEffect, hKind, hArgs]
  · cases h

theorem predicateEffect_of_fact {atom : Atom} (h : atom.relation? = none) :
    (predicateEffect atom : Effect α) = .assert atom.fact := by
  unfold predicateEffect
  dsimp only
  split
  · rename_i kind subject object hKind hArgs
    simp [Atom.relation?, hKind, hArgs] at h
  · rfl

-- ---------------------------------------------------------------------------
-- The initial state
-- ---------------------------------------------------------------------------

/-- The state in which what the predicates and assignments stand for is put one after the other. -/
def initialState (p : Problem) : State Float where
  relations := p.relations.foldl State.relate .empty
  facts := p.facts.foldl (fun facts fact => facts.insert fact) .empty
  fluents := p.functions.foldl (fun fluents f => fluents.insert f.fluent f.value) .empty

/-- Predicates can always be applied. Each one concerns either the relations or the facts. -/
theorem applyAll_predicates [Scalar α] (atoms : List Atom) (rest : List (Effect α)) : ∀ s : State α,
    s.applyAll (atoms.map predicateEffect ++ rest) = State.applyAll { s with
      relations := (atoms.filterMap Atom.relation?).foldl State.relate s.relations
      facts := ((atoms.filter fun atom => atom.relation? = none).map Atom.fact).foldl
        (fun facts fact => facts.insert fact) s.facts } rest := by
  induction atoms with
  | nil => exact fun _ => rfl
  | cons atom more ih =>
    intro s
    cases hRelation : atom.relation? with
    | some r =>
      rw [List.map_cons, List.cons_append, predicateEffect_of_relation hRelation]
      simp [State.applyAll, State.apply, ih, hRelation]
    | none =>
      rw [List.map_cons, List.cons_append, predicateEffect_of_fact hRelation]
      simp [State.applyAll, State.apply, ih, hRelation]

theorem applyAll_assignments (functions : List Assignment) : ∀ s : State Float,
    s.applyAll (functions.map assignmentEffect) = .ok { s with
      fluents := functions.foldl (fun fluents f => fluents.insert f.fluent f.value) s.fluents } := by
  induction functions with
  | nil => exact fun _ => rfl
  | cons f more ih =>
    intro s
    have hEffect : assignmentEffect f = .assign f.fluent f.value := rfl
    simp [State.applyAll, State.apply, ih, hEffect]

theorem applyAll_initialEffects (p : Problem) : State.empty.applyAll (initialEffects p) = .ok (initialState p) := by
  rw [initialEffects, applyAll_predicates, applyAll_assignments]
  rfl

/-- Declarations do not concern the state. -/
theorem state_foldl_declare {β : Type} {declareNext : World α → β → World α}
    (hNext : ∀ w b, (declareNext w b).state = w.state) (list : List β) :
    ∀ w : World α, (list.foldl declareNext w).state = w.state := by
  induction list with
  | nil => exact fun _ => rfl
  | cons b rest ih =>
    intro w
    rw [List.foldl_cons, ih, hNext]

theorem state_declared (p : Problem) : (declared p : World α).state = .empty := by
  unfold declared mention
  dsimp only
  rw [state_foldl_declare, state_foldl_declare]
  · rfl
  · exact fun _ _ => rfl
  · intro w name
    split <;> rfl

/-- A problem that has an initial world has finite values, and the state of that world is the initial one. -/
theorem ofProblem_eq_ok {p : Problem} {w : World Float} (h : ofProblem p = .ok w) :
    (∀ f ∈ p.functions, f.value.isFinite = true) ∧ w = ⟨(declared p : World Float).entities, initialState p⟩ := by
  unfold ofProblem at h
  split at h
  · cases h
  · rename_i hFinite
    split at h
    · rename_i hApply
      cases h
      obtain ⟨-, staged, hStaged, -, rfl⟩ := applyEffects_eq_ok_iff.mp hApply
      rw [state_declared, applyAll_initialEffects, Except.ok.injEq] at hStaged
      refine ⟨by simpa using hFinite, ?_⟩
      rw [hStaged]
    · cases h

theorem exists_ofProblem {p : Problem} (h : (ofProblem p).isOk = true) : ∃ w, ofProblem p = .ok w := by
  cases hWorld : ofProblem p with
  | ok w => exact ⟨w, rfl⟩
  | error e =>
    rw [hWorld] at h
    cases h

/-- A problem with finite values has an initial world, or a rule that it breaks. -/
theorem ofProblem_cases {p : Problem} (h : ∀ f ∈ p.functions, f.value.isFinite = true) :
    (∃ w, ofProblem p = .ok w) ∨ ∃ violation, ofProblem p = .error (.inconsistent violation) := by
  have hFinite : (p.functions.find? fun f => !f.value.isFinite) = none := by
    simpa using h
  unfold ofProblem
  rw [hFinite]
  dsimp only
  split
  · exact Or.inl ⟨_, rfl⟩
  · exact Or.inr ⟨_, rfl⟩

-- ---------------------------------------------------------------------------
-- What holds initially
-- ---------------------------------------------------------------------------

/-- Whether a predicate holds, as a relation or as a fact. -/
def Holds (w : World α) (atom : Atom) : Prop :=
  match atom.relation? with
  | some r => w.holds r = true
  | none => w.hasFact atom.fact = true

section Initially

variable {p : Problem} {w : World Float} (h : ofProblem p = .ok w)

include h

/-- A relation of a functional kind holds initially iff it is the last one of its subject. -/
theorem holds_ofProblem_iff {r : Relation} : w.holds r = true ↔ r ∈ p.relations ∧
    (r.kind.isFunctional = true →
      (p.relations.filter fun s => s.kind = r.kind ∧ s.subject = r.subject).getLast? = some r) := by
  obtain ⟨-, rfl⟩ := ofProblem_eq_ok h
  rw [holds, decide_eq_true_eq]
  exact State.mem_foldl_relate

theorem hasFact_ofProblem_iff {fact : Fact} : w.hasFact fact = true ↔ fact ∈ p.facts := by
  obtain ⟨-, rfl⟩ := ofProblem_eq_ok h
  rw [hasFact, decide_eq_true_eq]
  simp [initialState, OrderedSet.mem_foldl_insert, OrderedSet.not_mem_empty]

/-- A fluent has the last value that is assigned to it. -/
theorem fluent?_ofProblem (key : ResourceKey) (args : List EntityId) :
    w.fluent? key args = (p.functions.filter fun f => f.fluent = ⟨key, args⟩).getLast?.map (·.value) := by
  obtain ⟨-, rfl⟩ := ofProblem_eq_ok h
  have hFluents := OrderedMap.get?_foldl_insert Assignment.fluent (·.value) p.functions .empty ⟨key, args⟩
  rw [OrderedMap.get?_empty, Option.or_none] at hFluents
  exact hFluents

/-- Where a relation is written, one of its kind and subject holds, and it is the written one unless the kind is
functional. -/
theorem exists_holds_ofProblem {r : Relation} (hr : r ∈ p.relations) :
    ∃ s ∈ p.relations, w.holds s = true ∧ s.kind = r.kind ∧ s.subject = r.subject ∧
      (r.kind.isFunctional = false → s = r) := by
  cases hFunctional : r.kind.isFunctional with
  | false => exact ⟨r, hr, (holds_ofProblem_iff h).mpr ⟨hr, by simp [hFunctional]⟩, rfl, rfl, fun _ => rfl⟩
  | true =>
    obtain ⟨s, hLast⟩ : ∃ s, (p.relations.filter fun s => s.kind = r.kind ∧ s.subject = r.subject).getLast? = some s :=
      exists_getLast?_filter hr (by simp)
    obtain ⟨hs, hSame⟩ := List.mem_filter.mp (List.mem_of_getLast? hLast)
    obtain ⟨hKind, hSubject⟩ := of_decide_eq_true hSame
    refine ⟨s, hs, (holds_ofProblem_iff h).mpr ⟨hs, fun _ => ?_⟩, hKind, hSubject, by simp⟩
    rw [hKind, hSubject]
    exact hLast

/-- All relations of a problem hold initially iff no two of them contradict each other. -/
theorem forall_holds_iff_coherent : (∀ r ∈ p.relations, w.holds r = true) ↔ p.Coherent := by
  have hSound := (ofProblem_sound h).state
  constructor
  · intro hAll r hr s hs hContradicts
    obtain ⟨hKind, hFunctional, hSubject, hOther⟩ := Relation.contradicts_iff.mp hContradicts
    exact hOther ((State.functional_iff _).mpr hSound.functional r (of_decide_eq_true (hAll r hr)) s
      (of_decide_eq_true (hAll s hs)) hKind hSubject hFunctional)
  · intro hCoherent r hr
    obtain ⟨s, hs, hHolds, hKind, hSubject, hPlain⟩ := exists_holds_ofProblem h hr
    cases hFunctional : r.kind.isFunctional with
    | false => exact hPlain hFunctional ▸ hHolds
    | true =>
      have hSame : s = r := by
        by_contra hOther
        exact hCoherent s hs r hr (Relation.contradicts_iff.mpr ⟨hKind, hKind ▸ hFunctional, hSubject, hOther⟩)
      exact hSame ▸ hHolds

end Initially

theorem forall_predicates_hold_iff {p : Problem} {w : World Float} (h : ofProblem p = .ok w) :
    (∀ atom ∈ p.predicates, w.Holds atom) ↔ p.Coherent := by
  rw [← forall_holds_iff_coherent h]
  constructor
  · intro hAll r hr
    obtain ⟨atom, hAtom, hRelation⟩ := Problem.mem_relations.mp hr
    have hHolds := hAll atom hAtom
    rw [Holds, hRelation] at hHolds
    exact hHolds
  · intro hAll atom hAtom
    unfold Holds
    split
    · rename_i r hRelation
      exact hAll r (Problem.mem_relations.mpr ⟨atom, hAtom, hRelation⟩)
    · rename_i hFact
      exact (hasFact_ofProblem_iff h).mpr (Problem.mem_facts.mpr ⟨atom, hAtom, hFact, rfl⟩)

-- ---------------------------------------------------------------------------
-- What is lost and what is refused
-- ---------------------------------------------------------------------------

/-- An entity that is placed twice, and not by two objects of one functional kind, has no initial world. -/
theorem inconsistent_of_placedTwice {p : Problem} (hFinite : ∀ f ∈ p.functions, f.value.isFinite = true)
    (hTwice : p.PlacedTwice) : ∃ violation, ofProblem p = .error (.inconsistent violation) := by
  rcases ofProblem_cases hFinite with ⟨w, h⟩ | hRefused
  · obtain ⟨entity, r, hr, s, hs, hPlacesR, hPlacesS, hOther, hApart⟩ := hTwice
    obtain ⟨r', -, hHoldsR, hKindR, hSubjectR, hPlainR⟩ := exists_holds_ofProblem h hr
    obtain ⟨s', -, hHoldsS, hKindS, hSubjectS, hPlainS⟩ := exists_holds_ofProblem h hs
    -- what holds in place of a relation places the same entity
    have hSame : r' = s' := by
      refine (State.placements_le_one_iff _ entity).mp ((ofProblem_sound h).state.placedOnce entity) r'
        (of_decide_eq_true hHoldsR) s' (of_decide_eq_true hHoldsS) ?_ ?_
      · exact Relation.places_of_replaced hPlacesR hKindR hSubjectR hPlainR
      · exact Relation.places_of_replaced hPlacesS hKindS hSubjectS hPlainS
    have hKind : r.kind = s.kind := by rw [← hKindR, hSame, hKindS]
    have hSubject : r.subject = s.subject := by rw [← hSubjectR, hSame, hSubjectS]
    cases hFunctional : r.kind.isFunctional with
    | false => exact absurd (by rw [← hPlainR hFunctional, hSame, hPlainS (hKind ▸ hFunctional)]) hOther
    | true => exact absurd (Relation.contradicts_iff.mpr ⟨hKind, hFunctional, hSubject, hOther⟩) hApart
  · exact hRefused

/-- **What an initial world loses.** Facts and relations of no functional kind hold. Of relations of a functional
kind the last one of each subject holds, so that all predicates hold iff no two contradict each other. An entity that
is placed in two ways is refused. -/
theorem ofProblem_settles (p : Problem) :
    (∀ w, ofProblem p = .ok w →
      (∀ fact ∈ p.facts, w.hasFact fact = true) ∧
      (∀ r ∈ p.relations, w.holds r = true ↔ (r.kind.isFunctional = true →
        (p.relations.filter fun s => s.kind = r.kind ∧ s.subject = r.subject).getLast? = some r)) ∧
      ((∀ atom ∈ p.predicates, w.Holds atom) ↔ p.Coherent)) ∧
    ((∀ f ∈ p.functions, f.value.isFinite = true) → p.PlacedTwice →
      ∃ violation, ofProblem p = .error (.inconsistent violation)) := by
  refine ⟨?_, inconsistent_of_placedTwice⟩
  intro w h
  refine ⟨?_, ?_, forall_predicates_hold_iff h⟩
  · intro fact hFact
    exact (hasFact_ofProblem_iff h).mpr hFact
  · intro r hr
    rw [holds_ofProblem_iff h, and_iff_right hr]

/-- A package that is on board and somewhere else as well is refused. -/
theorem ofProblem_settles_of_boarded :
    let p : Problem := ⟨"rush", "logistics", [⟨"crate", "package"⟩, ⟨"van", "truck"⟩, ⟨"depot", "location"⟩],
      [⟨"at", ["van", "depot"]⟩, ⟨"in", ["crate", "van"]⟩, ⟨"AT", ["Crate", "depot"]⟩], [], []⟩
    p.PlacedTwice ∧ ∃ violation, ofProblem p = .error (.inconsistent violation) := by
  intro p
  have hTwice : p.PlacedTwice := by
    refine ⟨⟨"crate"⟩, ⟨.isIn, ⟨"crate"⟩, ⟨"van"⟩⟩, ?_, ⟨.isAt, ⟨"crate"⟩, ⟨"depot"⟩⟩, ?_, rfl, rfl, by decide, ?_⟩
    · decide
    · decide
    · exact fun h => nomatch h.1
  exact ⟨hTwice, (ofProblem_settles p).2 (by simp [p]) hTwice⟩

/-- A truck that is said to be at two places is only at the second one; the first predicate is lost, and nothing is
refused. -/
theorem ofProblem_forgets_place :
    let p : Problem := ⟨"p", "logistics", [⟨"t", "truck"⟩, ⟨"a", "location"⟩, ⟨"b", "location"⟩],
      [⟨"at", ["t", "a"]⟩, ⟨"at", ["t", "b"]⟩], [], []⟩
    ∃ w, ofProblem p = .ok w ∧ w.relations = [⟨.isAt, ⟨"t"⟩, ⟨"b"⟩⟩] ∧ ¬ ∀ atom ∈ p.predicates, w.Holds atom := by
  intro p
  obtain ⟨w, h⟩ : ∃ w, ofProblem p = .ok w := exists_ofProblem (by decide)
  have hRelations : w.relations = [⟨.isAt, ⟨"t"⟩, ⟨"b"⟩⟩] := by
    obtain ⟨-, rfl⟩ := ofProblem_eq_ok h
    decide
  refine ⟨w, h, hRelations, ?_⟩
  intro hAll
  have hFirst : w.holds ⟨.isAt, ⟨"t"⟩, ⟨"a"⟩⟩ = true := hAll ⟨"at", ["t", "a"]⟩ (by simp [p])
  have hMember : (⟨.isAt, ⟨"t"⟩, ⟨"a"⟩⟩ : Relation) ∈ w.relations := of_decide_eq_true hFirst
  rw [hRelations] at hMember
  simp at hMember

end World

end PlanReplay

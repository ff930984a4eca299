import Mathlib.Data.List.Nodup
import PlanReplay.World.Basic

/-!
# Counts of relations

A state counts relations to see that an entity is at one place and has one target. Here the counts are
read as uniqueness: no two members of the set of relations agree on what is counted.

* `OrderedSet.length_filter_le_one_iff` — at most one member is counted iff any two counted members are
  equal.
* `State.placements_eq` — the three counts of `State.placements` are one count of the relations that place
  the entity.
* `State.functional_iff` — a functional kind has at most one object for each subject.
-/

namespace PlanReplay

-- ---------------------------------------------------------------------------
-- Counting members of a set
-- ---------------------------------------------------------------------------

namespace OrderedSet

open Std

variable {β : Type} [Ord β] [ReflOrd β]

/-- A set is listed without repetition. -/
theorem nodup_toList (s : OrderedSet β) : s.toList.Nodup := by
  refine s.ascending.imp ?_
  intro a b hLess hSame
  rw [hSame] at hLess
  exact compare_ne_lt b hLess

/-- At most one member is counted iff any two counted members are equal. -/
theorem length_filter_le_one_iff (s : OrderedSet β) (counted : β → Bool) :
    (s.toList.filter counted).length ≤ 1 ↔
      ∀ a ∈ s, ∀ b ∈ s, counted a = true → counted b = true → a = b := by
  have hNodup : (s.toList.filter counted).Nodup := s.nodup_toList.filter counted
  constructor
  · intro hLength a ha b hb hca hcb
    have hma : a ∈ s.toList.filter counted := List.mem_filter.mpr ⟨ha, hca⟩
    have hmb : b ∈ s.toList.filter counted := List.mem_filter.mpr ⟨hb, hcb⟩
    match hList : s.toList.filter counted, hLength with
    | [], _ =>
      rw [hList] at hma
      simp at hma
    | [c], _ =>
      rw [hList, List.mem_singleton] at hma hmb
      rw [hma, hmb]
  · intro hSame
    match hList : s.toList.filter counted with
    | [] => simp
    | [c] => simp
    | c :: d :: rest =>
      -- two counted members in the list are equal, but the list repeats nothing
      have hc : c ∈ s.toList.filter counted := by rw [hList]; simp
      have hd : d ∈ s.toList.filter counted := by rw [hList]; simp
      rw [List.mem_filter] at hc hd
      rw [hList, hSame c hc.1 d hd.1 hc.2 hd.2] at hNodup
      simp at hNodup

end OrderedSet

-- ---------------------------------------------------------------------------
-- Relations that place an entity
-- ---------------------------------------------------------------------------

/-- Whether a relation places an entity: it says where the entity is, what it is in, or who carries it. -/
def Relation.places (r : Relation) (entity : EntityId) : Bool :=
  match r.kind with
  | .isAt | .isIn => r.subject = entity
  | .carries => r.object = entity
  | .above | .connected | .target => false

/-- A relation that places an entity is about it. -/
theorem Relation.about_of_places {r : Relation} {entity : EntityId} (h : r.places entity = true) :
    r.subject = entity ∨ r.object = entity := by
  unfold Relation.places at h
  split at h
  · exact Or.inl (of_decide_eq_true h)
  · exact Or.inl (of_decide_eq_true h)
  · exact Or.inr (of_decide_eq_true h)
  all_goals simp at h

namespace State

variable {α : Type}

/-- The three counts of placements are one count: the kinds that place are different kinds. -/
theorem placements_eq (s : State α) (entity : EntityId) :
    s.placements entity = (s.relations.toList.filter (·.places entity)).length := by
  unfold placements related subjectsOf
  simp only [List.length_map, Bool.decide_and]
  induction s.relations.toList with
  | nil => rfl
  | cons r rest ih =>
    simp only [List.filter_cons, Relation.places] at ih ⊢
    cases r.kind with
    | isAt | isIn =>
      by_cases hSubject : r.subject = entity
      · simp [hSubject]
        omega
      · simp [hSubject]
        omega
    | carries =>
      by_cases hObject : r.object = entity
      · simp [hObject]
        omega
      · simp [hObject]
        omega
    | above | connected | target =>
      simp
      omega

/-- An entity is placed at most once iff any two relations that place it are equal. -/
theorem placements_le_one_iff (s : State α) (entity : EntityId) :
    s.placements entity ≤ 1 ↔
      ∀ a ∈ s.relations, ∀ b ∈ s.relations, a.places entity = true → b.places entity = true → a = b := by
  rw [placements_eq]
  exact s.relations.length_filter_le_one_iff _

/-- Every functional kind relates a subject to at most one object. -/
def Functional (s : State α) : Prop :=
  ∀ a ∈ s.relations, ∀ b ∈ s.relations, a.kind = b.kind → a.subject = b.subject →
    a.kind.isFunctional = true → a = b

/-- A subject has at most one object of a kind iff any two of its relations of that kind are equal. -/
theorem related_le_one_iff (s : State α) (kind : RelationKind) (entity : EntityId) :
    (s.related kind entity).length ≤ 1 ↔
      ∀ a ∈ s.relations, ∀ b ∈ s.relations, (a.kind = kind ∧ a.subject = entity) →
        (b.kind = kind ∧ b.subject = entity) → a = b := by
  have h := s.relations.length_filter_le_one_iff fun r => decide (r.kind = kind ∧ r.subject = entity)
  simp only [decide_eq_true_eq] at h
  rw [related, List.length_map]
  exact h

/-- A state is functional iff no count of objects of a functional kind exceeds one. -/
theorem functional_iff (s : State α) :
    s.Functional ↔ ∀ kind entity, kind.isFunctional = true → (s.related kind entity).length ≤ 1 := by
  constructor
  · intro h kind entity hKind
    rw [related_le_one_iff]
    intro a ha b hb ⟨hak, has⟩ ⟨hbk, hbs⟩
    exact h a ha b hb (by rw [hak, hbk]) (by rw [has, hbs]) (by rw [hak]; exact hKind)
  · intro h a ha b hb hKind hSubject hFunctional
    have hCount := h a.kind a.subject hFunctional
    rw [related_le_one_iff] at hCount
    exact hCount a ha b hb ⟨rfl, rfl⟩ ⟨hKind.symm, hSubject.symm⟩

end State

end PlanReplay

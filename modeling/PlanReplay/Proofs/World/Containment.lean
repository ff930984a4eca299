import Mathlib.Logic.Relation
import PlanReplay.Proofs.World.Shift

/-!
# Who holds whom

An entity is held by what it is in and by who carries it. A batch of the common shape puts one entity somewhere, and
afterwards that entity has one placement at most; so the batch redirects the edges from this entity and keeps all the
others. A cycle can only come up through the entity itself.

* `World.HeldBy`, `World.Acyclic` — containment, and that it has no cycle.
* `acyclic_redirect_iff` — a relation in which one point gets a new successor.
* `World.heldBy_of_shift` — containment after a batch.
* `World.acyclic_of_shift_iff` — when a batch closes a cycle, and `World.eq_of_held` when it can.
-/

namespace PlanReplay

-- ---------------------------------------------------------------------------
-- Redirected relations
-- ---------------------------------------------------------------------------

section Redirect

variable {β : Type} {r r' : β → β → Prop} {x : β}

/-- A path that may take the new edge from `x` to `target` is an old path, or goes along old edges up to `x` and along
old edges from `target`. -/
theorem transGen_redirect {target : β} (hStep : ∀ y z, r' y z → (y = x ∧ z = target) ∨ r y z) {y z : β}
    (h : Relation.TransGen r' y z) :
    Relation.TransGen r y z ∨ (Relation.ReflTransGen r y x ∧ Relation.ReflTransGen r target z) := by
  induction h with
  | single hFirst =>
    rcases hStep _ _ hFirst with ⟨rfl, rfl⟩ | hOld
    · exact Or.inr ⟨.refl, .refl⟩
    · exact Or.inl (.single hOld)
  | tail _ hLast ih =>
    rcases hStep _ _ hLast with ⟨rfl, rfl⟩ | hOld
    · -- the new edge begins at `x`, wherever it was taken before
      refine Or.inr ⟨?_, .refl⟩
      rcases ih with hPath | ⟨hPath, -⟩
      · exact hPath.to_reflTransGen
      · exact hPath
    · rcases ih with hPath | ⟨hPath, hRest⟩
      · exact Or.inl (hPath.tail hOld)
      · exact Or.inr ⟨hPath, hRest.tail hOld⟩

/-- A path to `x` goes along edges from other points. -/
theorem reflTransGen_to_redirected (hKept : ∀ y z, y ≠ x → r y z → r' y z) {y : β} (h : Relation.ReflTransGen r y x) :
    Relation.ReflTransGen r' y x := by
  induction h using Relation.ReflTransGen.head_induction_on with
  | refl => exact .refl
  | @head first second hStep _ ih =>
    by_cases hAt : first = x
    · rw [hAt]
    · exact .head (hKept first second hAt hStep) ih

/-- A relation without cycles in which the edges from `x` are redirected to `target?` gets a cycle iff a path led from
the target to `x`. -/
theorem acyclic_redirect_iff {target? : Option β} (hOwn : ∀ z, r' x z ↔ target? = some z)
    (hOthers : ∀ y z, y ≠ x → (r' y z ↔ r y z)) (hAcyclic : ∀ y, ¬ Relation.TransGen r y y) :
    (∀ y, ¬ Relation.TransGen r' y y) ↔ ∀ target, target? = some target → ¬ Relation.ReflTransGen r target x := by
  constructor
  · intro hAfter target hTarget hPath
    have hBack : Relation.ReflTransGen r' target x :=
      reflTransGen_to_redirected (fun y z hy => (hOthers y z hy).mpr) hPath
    exact hAfter x (.head' ((hOwn target).mpr hTarget) hBack)
  · intro hApart y hCycle
    cases hTarget : target? with
    | none =>
      -- no edge is new
      have hOld : r' ≤ r := by
        intro a b hab
        by_cases ha : a = x
        · rw [ha, hOwn, hTarget] at hab
          cases hab
        · exact (hOthers a b ha).mp hab
      exact hAcyclic y (Relation.TransGen.mono hOld _ _ hCycle)
    | some target =>
      have hStep : ∀ a b, r' a b → (a = x ∧ b = target) ∨ r a b := by
        intro a b hab
        by_cases ha : a = x
        · rw [ha, hOwn, hTarget] at hab
          exact Or.inl ⟨ha, (Option.some.inj hab).symm⟩
        · exact Or.inr ((hOthers a b ha).mp hab)
      rcases transGen_redirect hStep hCycle with hOld | ⟨hTo, hFrom⟩
      · exact hAcyclic y hOld
      · exact hApart target hTarget (hFrom.trans hTo)

end Redirect

-- ---------------------------------------------------------------------------
-- Containment
-- ---------------------------------------------------------------------------

variable {α : Type}

namespace World

/-- `x` is in `holder`, or `holder` carries it. -/
def HeldBy (w : World α) (x holder : EntityId) : Prop :=
  w.holds ⟨.isIn, x, holder⟩ = true ∨ w.holds ⟨.carries, holder, x⟩ = true

/-- No entity is, directly or through others, in itself or carried by itself. -/
def Acyclic (w : World α) : Prop := ∀ x, ¬ Relation.TransGen w.HeldBy x x

/-- Whoever is held is so by a placement. -/
theorem heldBy_iff {w : World α} {x holder : EntityId} :
    w.HeldBy x holder ↔ ∃ p : Placement, p.holder? = some holder ∧ p.relation x ∈ w.state.relations := by
  constructor
  · rintro (hIn | hCarried)
    · exact ⟨.isIn holder, rfl, of_decide_eq_true hIn⟩
    · exact ⟨.carriedBy holder, rfl, of_decide_eq_true hCarried⟩
  · rintro ⟨p, hHolder, hMem⟩
    cases p with
    | isAt place => cases hHolder
    | isIn container =>
      cases hHolder
      exact Or.inl (decide_eq_true hMem)
    | carriedBy carrier =>
      cases hHolder
      exact Or.inr (decide_eq_true hMem)

/-- In a world whose relations all are of other kinds nobody is held. -/
theorem not_heldBy_of_kinds {w : World α} (h : ∀ r ∈ w.relations, r.kind ≠ .isIn ∧ r.kind ≠ .carries)
    (x holder : EntityId) : ¬ w.HeldBy x holder := by
  rintro (hIn | hCarried)
  · exact (h _ (OrderedSet.mem_toList.mpr (of_decide_eq_true hIn))).1 rfl
  · exact (h _ (OrderedSet.mem_toList.mpr (of_decide_eq_true hCarried))).2 rfl

/-- Where nobody is held, there is no cycle. -/
theorem acyclic_of_not_heldBy {w : World α} (h : ∀ x holder, ¬ w.HeldBy x holder) : w.Acyclic := by
  intro x hCycle
  obtain ⟨holder, hFirst, -⟩ := Relation.TransGen.head'_iff.mp hCycle
  exact h x holder hFirst

-- ---------------------------------------------------------------------------
-- Batches
-- ---------------------------------------------------------------------------

variable [Scalar α] {scope : Scope} {x : EntityId} {effects : List (Effect α)} {w next : World α}

/-- Everything that an accepted batch names has one placement at most afterwards. -/
theorem placement_unique_of_touched (h : w.applyEffects effects = .ok next) {entity : EntityId}
    (hTouched : entity ∈ touchedBy effects) (p q : Placement) (hp : p.relation entity ∈ next.state.relations)
    (hq : q.relation entity ∈ next.state.relations) : p = q := by
  obtain ⟨-, staged, -, hCheck, rfl⟩ := applyEffects_eq_ok_iff.mp h
  have hChecked := (State.violation?_eq_none_iff.mp hCheck).1 entity
    (OrderedSet.mem_toList.mpr (OrderedSet.mem_ofList.mpr hTouched))
  obtain ⟨-, hOnce, -⟩ := State.entityViolation?_eq_none_iff.mp hChecked
  exact Placement.relation_injective ((staged.placements_le_one_iff entity).mp hOnce _ hp _ hq (by simp) (by simp))

omit [Scalar α] in
/-- A batch that puts `x` somewhere names `x` and its holder there. -/
theorem touched_of_shift {p : Placement} (h : Shift scope x effects (some p)) :
    x ∈ touchedBy effects ∧ ∀ holder, p.holder? = some holder → holder ∈ touchedBy effects := by
  cases h with
  | @land before after _ hBefore hAfter =>
    have hNamed : ∀ entity ∈ (Effect.relate (α := α) (p.relation x)).touched,
        entity ∈ touchedBy (before ++ .relate (p.relation x) :: after) :=
      fun entity hEntity => List.mem_flatMap.mpr ⟨_, by simp, hEntity⟩
    cases p with
    | isAt place => exact ⟨hNamed x (by simp [Effect.touched, Placement.relation]), nofun⟩
    | isIn holder | carriedBy holder =>
      refine ⟨hNamed x (by simp [Effect.touched, Placement.relation]), ?_⟩
      rintro _ ⟨⟩
      exact hNamed holder (by simp [Effect.touched, Placement.relation])

/-- A batch that puts `x` somewhere makes it held by the holder there, and nobody else by anyone else. -/
theorem heldBy_of_shift {p : Placement} (hShift : Shift scope x effects (some p))
    (h : w.applyEffects effects = .ok next) :
    (∀ holder, next.HeldBy x holder ↔ p.holder? = some holder) ∧
      ∀ y holder, y ≠ x → (next.HeldBy y holder ↔ w.HeldBy y holder) := by
  have hOnce := placement_unique_of_touched h (touched_of_shift hShift).1
  obtain ⟨-, staged, hStaged, -, rfl⟩ := applyEffects_eq_ok_iff.mp h
  obtain ⟨hLanded, hFrame⟩ := hShift.lands hStaged
  refine ⟨?_, ?_⟩
  · intro holder
    rw [heldBy_iff]
    constructor
    · rintro ⟨q, hHolder, hMem⟩
      rw [hOnce p q hLanded hMem]
      exact hHolder
    · exact fun hHolder => ⟨p, hHolder, hLanded⟩
  · intro y holder hOther
    simp only [heldBy_iff]
    refine exists_congr fun q => and_congr_right fun _ => hFrame.relations _ ?_
    simp [hOther]

/-- **Cycles of containment.** After a batch of the common shape containment has a cycle, where it had none, iff the
batch puts `x` into a holder that is `x`, or that was held by it through others. -/
theorem acyclic_of_shift_iff {landing : Option Placement} (hAcyclic : w.Acyclic)
    (hShift : Shift scope x effects landing) (h : w.applyEffects effects = .ok next) :
    next.Acyclic ↔
      ∀ holder, landing.bind Placement.holder? = some holder → ¬ Relation.ReflTransGen w.HeldBy holder x := by
  cases landing with
  | none =>
    -- every entity stays where it is
    obtain ⟨-, staged, hStaged, -, rfl⟩ := applyEffects_eq_ok_iff.mp h
    have hSame : ({ w with state := staged } : World α).HeldBy = w.HeldBy := by
      funext y holder
      simp only [HeldBy, holds, hShift.stays hStaged]
    simp only [Acyclic, hSame, Option.bind_none, reduceCtorEq, false_implies, implies_true, iff_true]
    exact hAcyclic
  | some p =>
    obtain ⟨hOwn, hOthers⟩ := heldBy_of_shift hShift h
    exact acyclic_redirect_iff hOwn hOthers hAcyclic

/-- A holder that is at a place can only be held by `x` through others if it is `x`: it would have two placements, and
the batch names it. -/
theorem eq_of_held {p : Placement} {holder place : EntityId} (hShift : Shift scope x effects (some p))
    (hHolder : p.holder? = some holder) (h : w.applyEffects effects = .ok next)
    (hPlace : w.holds ⟨.isAt, holder, place⟩ = true) (hHeld : Relation.ReflTransGen w.HeldBy holder x) :
    holder = x := by
  by_contra hOther
  -- the first step of the path is another placement of the holder
  obtain hSame | ⟨outer, hFirst, -⟩ := Relation.ReflTransGen.cases_head hHeld
  · exact hOther hSame
  obtain ⟨q, hOuter, hMem⟩ := heldBy_iff.mp hFirst
  have hOnce := placement_unique_of_touched h ((touched_of_shift hShift).2 holder hHolder)
  obtain ⟨-, staged, hStaged, -, rfl⟩ := applyEffects_eq_ok_iff.mp h
  have hKept : ∀ place : Placement, place.relation holder ∈ w.state.relations →
      place.relation holder ∈ staged.relations :=
    fun place => ((hShift.frame hStaged).relations _ (by simp [hOther])).mpr
  have hSame : q = .isAt place := hOnce _ _ (hKept q hMem) (hKept (.isAt place) (of_decide_eq_true hPlace))
  rw [hSame] at hOuter
  cases hOuter

end World

end PlanReplay

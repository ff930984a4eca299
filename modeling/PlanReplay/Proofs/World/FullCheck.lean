import PlanReplay.Proofs.World.Invariant

/-!
# A check of everything

After a batch a world looks only at the entities that the batch touches. Looking at every declared entity would
find the same: the other entities and the fluents about them have kept the rules, and those that are looked at
are looked at in the same order.

* `OrderedSet.toList_eq_filter` — a set that is listed as part of a longer ascending list.
* `State.Sound.violation?_eq` — a check of the touched entities finds what a check of more entities finds.
* `World.applyEffects_eq_full_check` — a batch is refused or accepted as by a check of all declared entities.
-/

namespace PlanReplay

open Std

variable {α : Type}

-- ---------------------------------------------------------------------------
-- Searching part of a list
-- ---------------------------------------------------------------------------

/-- A search finds the same in a part of a list, if there is nothing to be found in the rest. -/
theorem findSome?_filter_eq {β γ : Type} {find : β → Option γ} {keep : β → Bool} {list : List β}
    (hRest : ∀ b ∈ list, keep b = false → find b = none) :
    (list.filter keep).findSome? find = list.findSome? find := by
  rw [← List.head?_filterMap, ← List.head?_filterMap, List.filterMap_filter]
  congr 1
  refine List.filterMap_congr ?_
  intro b hb
  cases hKeep : keep b with
  | true => rfl
  | false => exact (hRest b hb hKeep).symm

/-- Searches by two functions that agree on the list find the same. -/
theorem findSome?_congr {β γ : Type} {find find' : β → Option γ} {list : List β}
    (hSame : ∀ b ∈ list, find b = find' b) : list.findSome? find = list.findSome? find' := by
  rw [← List.head?_filterMap, ← List.head?_filterMap, List.filterMap_congr hSame]

/-- A set is listed in the order of any ascending list that has all its members. -/
theorem OrderedSet.toList_eq_filter {β : Type} [Ord β] [TransOrd β] [DecidableEq β] {s : OrderedSet β}
    {list : List β} (hAscending : list.Pairwise fun a b => compare a b = .lt) (hSub : ∀ b ∈ s, b ∈ list) :
    s.toList = list.filter (· ∈ s.toList) := by
  refine eq_of_ascending compare_ne_lt TransCmp.lt_trans s.ascending (hAscending.filter _) ?_
  intro b
  rw [List.mem_filter, decide_eq_true_iff]
  constructor
  · intro hb
    exact ⟨hSub b hb, hb⟩
  · rintro ⟨-, hb⟩
    exact hb

-- ---------------------------------------------------------------------------
-- Checks of more entities
-- ---------------------------------------------------------------------------

namespace State

variable [Scalar α]

/-- A check of the touched entities of a sound state finds what a check of more entities finds, and finds it
first. -/
theorem Sound.violation?_eq {s next : State α} {touched : OrderedSet EntityId} {all : List EntityId}
    (h : s.Sound) (hGrows : s.GrowsWithin next touched.toList) (hFunctional : next.Functional)
    (hAscending : all.Pairwise fun a b => compare a b = .lt) (hAll : ∀ id ∈ touched, id ∈ all) :
    next.violation? touched.toList = next.violation? all := by
  -- what is left out of the check of entities has nothing to find
  have hEntities : touched.toList.findSome? next.entityViolation? = all.findSome? next.entityViolation? := by
    rw [OrderedSet.toList_eq_filter hAscending hAll]
    refine findSome?_filter_eq ?_
    intro entity _ hLeft
    rw [decide_eq_false_iff_not] at hLeft
    exact h.entity_of_untouched hGrows hFunctional hLeft
  -- and so has what is left out of the check of fluents
  have hFluents : ∀ entry ∈ next.fluents.toList,
      (if entry.1.args = [] ∨ ∃ arg ∈ entry.1.args, arg ∈ touched.toList then
        fluentViolation? entry.1 entry.2 else none) =
      if entry.1.args = [] ∨ ∃ arg ∈ entry.1.args, arg ∈ all then fluentViolation? entry.1 entry.2 else none := by
    rintro ⟨fluent, value⟩ hEntry
    by_cases hTouched : fluent.args = [] ∨ ∃ arg ∈ fluent.args, arg ∈ touched.toList
    · have hMore : fluent.args = [] ∨ ∃ arg ∈ fluent.args, arg ∈ all := by
        refine hTouched.imp_right ?_
        rintro ⟨arg, hArg, hIn⟩
        exact ⟨arg, hArg, hAll arg hIn⟩
      rw [if_pos hTouched, if_pos hMore]
    · have hNone : fluentViolation? fluent value = none :=
        h.fluent_of_untouched hGrows (OrderedMap.mem_toList_iff.mp hEntry) hTouched
      rw [if_neg hTouched, hNone, ite_self]
  unfold violation?
  rw [hEntities]
  congr 1
  exact findSome?_congr hFluents

end State

namespace World

theorem keys_ascending (w : World α) : w.entities.keys.Pairwise fun a b => compare a b = .lt :=
  List.pairwise_map.mpr w.entities.ascending

/-- The declared entities are the keys of the map of entities. -/
theorem mem_keys_iff {w : World α} {id : EntityId} : id ∈ w.entities.keys ↔ w.contains id = true := by
  unfold OrderedMap.keys contains OrderedMap.contains
  rw [List.mem_map, Option.isSome_iff_exists]
  constructor
  · rintro ⟨⟨id', kind⟩, hEntry, rfl⟩
    exact ⟨kind, OrderedMap.mem_toList_iff.mp hEntry⟩
  · rintro ⟨kind, hKind⟩
    exact ⟨(id, kind), OrderedMap.mem_toList_iff.mpr hKind, rfl⟩

/--
**Touched entities stand for all.** Take a batch over declared entities of a reachable world that can be staged.
The check of the entities that it touches finds what a check of all declared entities finds: the same violation,
or none. So the batch is accepted or refused as by the check of all.
-/
theorem applyEffects_eq_full_check {w : World Float} (h : w.Reachable) {effects : List (Effect Float)}
    (hDeclared : ∀ id ∈ touchedBy effects, w.contains id = true) {staged : State Float}
    (hStaged : w.state.applyAll effects = .ok staged) :
    staged.violation? (OrderedSet.ofList (touchedBy effects)).toList = staged.violation? w.entities.keys ∧
      w.applyEffects effects =
        match staged.violation? w.entities.keys with
        | some violation => .error violation
        | none => .ok { w with state := staged } := by
  have hSound := h.sound.state
  have hTouched : ∀ id ∈ touchedBy effects, id ∈ (OrderedSet.ofList (touchedBy effects)).toList :=
    fun id hid => OrderedSet.mem_toList.mpr (OrderedSet.mem_ofList.mpr hid)
  have hGrows := (State.applyAll_growsWithin hStaged).mono hTouched
  have hFunctional := State.applyAll_functional (w.state.functional_iff.mpr hSound.functional) hStaged
  have hAll : ∀ id ∈ OrderedSet.ofList (touchedBy effects), id ∈ w.entities.keys :=
    fun id hid => mem_keys_iff.mpr (hDeclared id (OrderedSet.mem_ofList.mp hid))
  have hSame := hSound.violation?_eq hGrows hFunctional w.keys_ascending hAll
  refine ⟨hSame, ?_⟩
  -- no entity is unknown, and the batch is staged
  have hKnown : ((touchedBy effects).find? fun id => !w.contains id) = none := by
    rw [List.find?_eq_none]
    intro id hid
    rw [hDeclared id hid]
    decide
  unfold applyEffects
  rw [hKnown, hStaged]
  dsimp only
  rw [hSame]
  cases staged.violation? w.entities.keys <;> rfl

/-- A full elevator goes to another floor and takes one passenger too many. The floor that it leaves is not
touched, and an elevator without passengers comes first in the order of names: both checks find the elevator
that is too full. -/
theorem applyEffects_eq_full_check_of_overload :
    let calls : List (WorldCall Float) :=
      [.declare ⟨"empty"⟩ .elevator, .declare ⟨"lift"⟩ .elevator, .declare ⟨"f1"⟩ .floor, .declare ⟨"f2"⟩ .floor,
        .applyEffects [.relate ⟨.isAt, ⟨"lift"⟩, ⟨"f1"⟩⟩, .setLevel ⟨"lift"⟩ .capacity 2,
          .setLevel ⟨"lift"⟩ .passengers 2, .setLevel ⟨"empty"⟩ .capacity 1]]
    let w := calls.foldl (fun w call => (w.perform call).1) empty
    let effects : List (Effect Float) := [.relate ⟨.isAt, ⟨"lift"⟩, ⟨"f2"⟩⟩, .adjust ⟨"lift"⟩ .passengers 1]
    let violation : Violation Float := .resourceExceeded ⟨"lift"⟩ .passengers 3 .capacity 2
    w.Reachable ∧ (∀ id ∈ touchedBy effects, w.contains id = true) ∧
      ∃ staged, w.state.applyAll effects = .ok staged ∧ staged.violation? w.entities.keys = some violation ∧
        staged.violation? (OrderedSet.ofList (touchedBy effects)).toList = some violation ∧
        w.applyEffects effects = .error violation := by
  intro calls w effects violation
  have hReachable : w.Reachable := .perform (.perform (.perform (.perform (.perform .empty _) _) _) _) _
  have hDeclared : ∀ id ∈ touchedBy effects, w.contains id = true := by decide
  have hRefused : w.applyEffects effects = .error violation := by decide +kernel
  obtain ⟨staged, hStaged⟩ : ∃ staged, w.state.applyAll effects = .ok staged := ⟨_, rfl⟩
  obtain ⟨hSame, hOutcome⟩ := applyEffects_eq_full_check hReachable hDeclared hStaged
  refine ⟨hReachable, hDeclared, staged, hStaged, ?_⟩
  rw [hSame]
  -- the batch is refused, and so the check of all finds what it is refused for
  rw [hRefused] at hOutcome ⊢
  cases hFound : staged.violation? w.entities.keys with
  | none =>
    rw [hFound] at hOutcome
    cases hOutcome
  | some found =>
    rw [hFound] at hOutcome
    cases hOutcome
    exact ⟨rfl, rfl, rfl⟩

end World

end PlanReplay

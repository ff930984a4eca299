import PlanReplay.Proofs.Elevator.FloorOrder
import PlanReplay.Proofs.Elevator.Load
import PlanReplay.Proofs.World.Initial

/-!
# Getting out of an elevator

Nothing but the levels can keep a person from getting out where the elevator is: the relations allow it, and no limit
is exceeded. The number of passengers is not in the way, because it counts everyone who got in. The load can be: it is
a sum of weights that is rounded each time someone gets in or out, in whatever order, and what is left of it may be
less than the last weight.

* `World.Alighted` — what getting out makes of a state.
* `World.Alighted.sound` — the state is sound if the levels do not fall below zero.
* `ActionTable.dispatch_unload_iff` — getting out is accepted iff they do not.
* `Simulation.run_unload_iff` — the same along a run, in which the number of passengers never falls below zero.
* `Simulation.run_unload_of_rounded_load` — someone is stuck with a load that is less than the weight.
-/

namespace PlanReplay

open Elevator

variable {α : Type}

-- ---------------------------------------------------------------------------
-- Staging
-- ---------------------------------------------------------------------------

section Staging

variable [Scalar α]

/-- A level that is there can be added to. -/
theorem Elevator.Table.exists_adjusted {w : World α} {s : State α} {elevator : EntityId} {key : ResourceKey} {delta : α}
    (hSame : s.level? elevator key = w.level? elevator key) :
    ∃ next, s.applyAll (adjustEffects w elevator key delta) = .ok next := by
  unfold adjustEffects
  cases hLevel : w.level? elevator key with
  | none => exact ⟨s, rfl⟩
  | some level =>
    refine ⟨{ s with fluents := s.fluents.insert ⟨key, [elevator]⟩ (level + delta) }, ?_⟩
    simp [State.applyAll, State.apply, hSame, hLevel]

/-- The number of passengers and the load can be added to wherever they are as they were. -/
theorem Elevator.Table.exists_burdened {w : World α} {s : State α} {person elevator : EntityId} {count : α}
    {sign : α → α} (hSame : ∀ key, s.level? elevator key = w.level? elevator key) :
    ∃ next, s.applyAll (adjustEffects w elevator .passengers count ++ weighEffects w person elevator sign) =
      .ok next := by
  obtain ⟨counted, hCounted⟩ : ∃ counted, s.applyAll (adjustEffects w elevator .passengers count) = .ok counted :=
    exists_adjusted (hSame .passengers)
  have hLoad : counted.level? elevator .load = w.level? elevator .load := by
    refine (State.fluent_of_spared ?_ hCounted).trans (hSame .load)
    intro effect hEffect hFluent
    cases fluent_of_adjustEffects hEffect hFluent
  obtain ⟨weighed, hWeighed⟩ : ∃ weighed, counted.applyAll (weighEffects w person elevator sign) = .ok weighed := by
    unfold weighEffects
    cases w.level? person .weight with
    | none => exact ⟨counted, rfl⟩
    | some weight => exact exists_adjusted hLoad
  exact ⟨weighed, State.applyAll_concat hCounted hWeighed⟩

omit [Scalar α] in
/-- An addition to a level names the elevator. -/
theorem Elevator.Table.touched_of_adjustEffects {w : World α} {elevator : EntityId} {key : ResourceKey} {delta : α}
    {effect : Effect α} (h : effect ∈ adjustEffects w elevator key delta) : effect.touched = [elevator] := by
  unfold adjustEffects at h
  split at h
  · obtain rfl := List.mem_singleton.mp h
    rfl
  · cases h

omit [Scalar α] in
theorem Elevator.Table.touched_of_weighEffects {w : World α} {person elevator : EntityId} {sign : α → α}
    {effect : Effect α} (h : effect ∈ weighEffects w person elevator sign) : effect.touched = [elevator] := by
  unfold weighEffects at h
  split at h
  · exact touched_of_adjustEffects h
  · cases h

omit [Scalar α] in
/-- An addition to a level is about no relation. -/
theorem Elevator.Table.relation?_of_adjustEffects {w : World α} {elevator : EntityId} {key : ResourceKey} {delta : α}
    {effect : Effect α} (h : effect ∈ adjustEffects w elevator key delta) : effect.relation? = none := by
  unfold adjustEffects at h
  split at h
  · obtain rfl := List.mem_singleton.mp h
    rfl
  · cases h

omit [Scalar α] in
theorem Elevator.Table.relation?_of_weighEffects {w : World α} {person elevator : EntityId} {sign : α → α}
    {effect : Effect α} (h : effect ∈ weighEffects w person elevator sign) : effect.relation? = none := by
  unfold weighEffects at h
  split at h
  · exact relation?_of_adjustEffects h
  · cases h

omit [Scalar α] in
/-- A passage names the entities of its two placements, and its elevator. -/
theorem Elevator.Table.touched_of_passageEffects {w : World α} {person elevator id : EntityId} {old new : Placement}
    {count : α} {sign : α → α} {effect : Effect α} (h : effect ∈ passageEffects w person elevator old new count sign)
    (hId : id ∈ effect.touched) :
    id ∈ [(old.relation person).subject, (old.relation person).object, (new.relation person).subject,
      (new.relation person).object, elevator] := by
  simp only [passageEffects, List.mem_append, List.mem_pair] at h
  rcases h with ((rfl | rfl) | hCount) | hWeigh
  · exact List.mem_append_left [_, _, elevator] hId
  · exact List.mem_append_right [_, _] (List.mem_append_left [elevator] hId)
  · rw [touched_of_adjustEffects hCount] at hId
    exact List.mem_append_right [_, _, _, _] hId
  · rw [touched_of_weighEffects hWeigh] at hId
    exact List.mem_append_right [_, _, _, _] hId

end Staging

-- ---------------------------------------------------------------------------
-- What getting out does
-- ---------------------------------------------------------------------------

/-- The state with a person at a place instead of in an elevator. -/
def State.alight (s : State α) (person elevator place : EntityId) : State α :=
  { s with relations := relate (s.relations.erase ⟨.isIn, person, elevator⟩) ⟨.isAt, person, place⟩ }

namespace World

/-- The effects of getting out of an elevator to a place. -/
def alightEffects [Scalar α] (w : World α) (person elevator place : EntityId) : List (Effect α) :=
  Table.passageEffects w person elevator (.isIn elevator) (.isAt place) (-1) fun weight => -weight

/-- The state in which a person has got out of an elevator to a place. -/
structure Alighted [Scalar α] (w : World α) (person elevator place : EntityId) (s : State α) : Prop where
  relations : ∀ r, r ∈ s.relations ↔ r = ⟨.isAt, person, place⟩ ∨
    (r ∈ w.state.relations ∧ r ≠ ⟨.isIn, person, elevator⟩) ∧ ¬ (⟨.isAt, person, place⟩ : Relation).Contradicts r
  passengers : s.level? elevator .passengers = (w.level? elevator .passengers).map (· + -1)
  load : s.level? elevator .load =
    match w.weight? person with
    | some weight => (w.level? elevator .load).map (· + -weight)
    | none => w.level? elevator .load
  fluents : ∀ fluent, fluent ≠ ⟨.passengers, [elevator]⟩ → fluent ≠ ⟨.load, [elevator]⟩ →
    s.fluents.get? fluent = w.state.fluents.get? fluent

section

variable [Scalar α] {w : World α} {person elevator place : EntityId}

/-- Getting out names the person, the elevator and the place. -/
theorem mem_touchedBy_alightEffects {id : EntityId} (h : id ∈ touchedBy (w.alightEffects person elevator place)) :
    id = person ∨ id = elevator ∨ id = place := by
  obtain ⟨effect, hEffect, hId⟩ := List.mem_flatMap.mp h
  have hNamed := Table.touched_of_passageEffects hEffect hId
  simp only [Placement.relation, List.mem_cons, List.not_mem_nil, or_false] at hNamed
  tauto

/-- Someone who is in an elevator can be got out of it. -/
theorem exists_applyAll_alightEffects (hIn : (⟨.isIn, person, elevator⟩ : Relation) ∈ w.state.relations)
    (place : EntityId) :
    ∃ s, w.state.applyAll (w.alightEffects person elevator place) = .ok s := by
  have hFirst : w.state.applyAll [.unrelate ⟨.isIn, person, elevator⟩, .relate ⟨.isAt, person, place⟩] =
      .ok (w.state.alight person elevator place) := by
    simp [State.applyAll, State.apply, State.alight, hIn]
  obtain ⟨next, hNext⟩ : ∃ next, (w.state.alight person elevator place).applyAll
      (Table.adjustEffects w elevator .passengers (-1) ++ Table.weighEffects w person elevator fun weight => -weight) =
        .ok next := Table.exists_burdened fun _ => rfl
  refine ⟨next, ?_⟩
  rw [alightEffects, Table.passageEffects, List.append_assoc]
  exact State.applyAll_concat hFirst hNext

/-- What getting out does. -/
theorem alighted_of_applyAll {s : State α} (h : w.state.applyAll (w.alightEffects person elevator place) = .ok s) :
    w.Alighted person elevator place s := by
  refine ⟨?_, ?_, ?_, ?_⟩
  · rw [alightEffects, Table.passageEffects, List.append_assoc] at h
    obtain ⟨forgotten, hForgotten, hRest⟩ := State.applyAll_cons h
    obtain ⟨moved, hMoved, hBurden⟩ := State.applyAll_cons hRest
    simp only [State.apply] at hForgotten
    split at hForgotten
    · cases hForgotten
      cases hMoved
      have hScope : (Scope.mk (some elevator) []).mover? = some elevator := rfl
      have hKept := (State.applyAll_within (x := person)
        (Table.burden_within hScope (-1) _ fun weight => -weight) hBurden).1
      intro r
      rw [hKept, State.mem_relate_iff, OrderedSet.mem_erase]
      exact Iff.rfl
    · cases hForgotten
  · exact Table.passengers_of_passage h
  · exact Table.load_of_passage h
  · intro fluent hPassengers hLoad
    refine State.fluent_of_spared ?_ h
    intro effect hEffect hFluent
    rcases Table.fluent_of_passageEffects hEffect hFluent with hSame | hSame
    · exact hPassengers hSame
    · exact hLoad hSame

end

-- ---------------------------------------------------------------------------
-- Nothing but the levels is in the way
-- ---------------------------------------------------------------------------

section

variable {w : World Float} {person elevator place : EntityId} {s : State Float}

/-- Neither the number of passengers nor the load of an elevator falls below zero when a person gets out. -/
structure CanLighten (w : World Float) (person elevator : EntityId) : Prop where
  passengers : ∀ count, w.level? elevator .passengers = some count → ¬ count + -1 < 0
  load : ∀ load weight, w.level? elevator .load = some load → w.weight? person = some weight →
    ¬ load + -weight < 0

/-- What a state that is sound makes of a level that is lowered. -/
theorem Sound.lowered (hSound : w.Sound) {key : ResourceKey} (hKey : key.isNonNegative = true) {before : Float}
    (hBefore : w.level? elevator key = some before) (delta : Float) (hDelta : delta.isFinite = true) (hDeltaZero : 0 ≤ delta) :
    (before + -delta).isFinite = true ∧
      ∀ limit : Float, limit.isFinite = true → ¬ limit < before → ¬ limit < before + -delta := by
  have hFinite : before.isFinite = true := hSound.state.finite _ _ hBefore
  have hZero : 0 ≤ before :=
    (Double.not_lt_iff_le rfl hFinite).mp (hSound.state.nonNegative key elevator before hKey hBefore)
  exact Double.lowered hFinite hDelta hZero hDeltaZero

/-- After a person has got out, a fluent has its old value or a lower one. -/
theorem Alighted.value_cases (h : w.Alighted person elevator place s) (hSound : w.Sound)
    (hWeight : ∀ weight, w.weight? person = some weight → 0 ≤ weight) (hCan : w.CanLighten person elevator)
    {fluent : Fluent} {value : Float} (hValue : s.fluents.get? fluent = some value) :
    w.state.fluents.get? fluent = some value ∨
      ∃ before, w.state.fluents.get? fluent = some before ∧ value.isFinite = true ∧ ¬ value < 0 ∧
        ∀ limit : Float, limit.isFinite = true → ¬ limit < before → ¬ limit < value := by
  by_cases hPassengers : fluent = ⟨.passengers, [elevator]⟩
  · subst hPassengers
    obtain ⟨before, hBefore, rfl⟩ := Option.map_eq_some_iff.mp (h.passengers.symm.trans hValue)
    obtain ⟨hFinite, hLimits⟩ := hSound.lowered rfl hBefore 1 rfl (by decide)
    exact Or.inr ⟨before, hBefore, hFinite, hCan.passengers before hBefore, hLimits⟩
  by_cases hLoad : fluent = ⟨.load, [elevator]⟩
  · subst hLoad
    have hLevel := h.load.symm.trans hValue
    cases hKnown : w.weight? person with
    | none =>
      rw [hKnown] at hLevel
      exact Or.inl hLevel
    | some weight =>
      rw [hKnown] at hLevel
      obtain ⟨before, hBefore, rfl⟩ := Option.map_eq_some_iff.mp hLevel
      have hWeightFinite : weight.isFinite = true := hSound.state.finite _ _ hKnown
      obtain ⟨hFinite, hLimits⟩ := hSound.lowered rfl hBefore weight hWeightFinite (hWeight weight hKnown)
      exact Or.inr ⟨before, hBefore, hFinite, hCan.load before weight hBefore hKnown, hLimits⟩
  · exact Or.inl ((h.fluents fluent hPassengers hLoad).symm.trans hValue)

/-- A person who gets out is at the place and nowhere else. -/
theorem Alighted.placedOnce (h : w.Alighted person elevator place s) (hSound : w.Sound)
    (hIn : (⟨.isIn, person, elevator⟩ : Relation) ∈ w.state.relations) (entity : EntityId) :
    s.placements entity ≤ 1 := by
  -- of the old relations only the one that is gone places the person
  have hGone : ∀ r ∈ w.state.relations, r ≠ ⟨.isIn, person, elevator⟩ → ¬ r.places person = true := by
    intro r hr hOther hPlaces
    exact hOther ((w.state.placements_le_one_iff person).mp (hSound.state.placedOnce person) r hr _ hIn hPlaces
      (decide_eq_true rfl))
  rw [State.placements_le_one_iff]
  intro a ha b hb hPlacesA hPlacesB
  rw [h.relations] at ha hb
  rcases ha with rfl | ⟨⟨haOld, haOther⟩, -⟩
  · obtain rfl : person = entity := of_decide_eq_true hPlacesA
    rcases hb with rfl | ⟨⟨hbOld, hbOther⟩, -⟩
    · rfl
    · exact absurd hPlacesB (hGone b hbOld hbOther)
  · rcases hb with rfl | ⟨⟨hbOld, -⟩, -⟩
    · obtain rfl : person = entity := of_decide_eq_true hPlacesB
      exact absurd hPlacesA (hGone a haOld haOther)
    · exact (w.state.placements_le_one_iff entity).mp (hSound.state.placedOnce entity) a haOld b hbOld hPlacesA hPlacesB

/-- The state is sound if the levels do not fall below zero. -/
theorem Alighted.sound (h : w.Alighted person elevator place s) (hFunctional : s.Functional) (hSound : w.Sound)
    (hIn : (⟨.isIn, person, elevator⟩ : Relation) ∈ w.state.relations)
    (hWeight : ∀ weight, w.weight? person = some weight → 0 ≤ weight) (hCan : w.CanLighten person elevator) :
    s.Sound := by
  have hCases := fun {fluent : Fluent} {value : Float} (hValue : s.fluents.get? fluent = some value) =>
    h.value_cases hSound hWeight hCan hValue
  have hLimit : ∀ {entity : EntityId} {key : ResourceKey}, varies key = false →
      s.level? entity key = w.level? entity key := by
    intro entity key hKey
    refine h.fluents _ ?_ ?_
    · rintro ⟨⟩
      cases hKey
    · rintro ⟨⟩
      cases hKey
  refine ⟨?_, h.placedOnce hSound hIn, ?_, ?_, ?_, ?_⟩
  · exact fun kind entity hKind => s.functional_iff.mp hFunctional kind entity hKind
  · intro entity value limit hValue hMax
    rw [hLimit rfl] at hMax
    rcases hCases hValue with hOld | ⟨before, hOld, -, -, hLimits⟩
    · exact hSound.state.load entity value limit hOld hMax
    · exact hLimits limit (hSound.state.finite _ _ hMax) (hSound.state.load entity before limit hOld hMax)
  · intro entity value limit hValue hMax
    rw [hLimit rfl] at hMax
    rcases hCases hValue with hOld | ⟨before, hOld, -, -, hLimits⟩
    · exact hSound.state.passengers entity value limit hOld hMax
    · exact hLimits limit (hSound.state.finite _ _ hMax) (hSound.state.passengers entity before limit hOld hMax)
  · intro fluent value hValue
    rcases hCases hValue with hOld | ⟨-, -, hFinite, -, -⟩
    · exact hSound.state.finite fluent value hOld
    · exact hFinite
  · intro key entity value hKey hValue
    rcases hCases hValue with hOld | ⟨-, -, -, hZero, -⟩
    · exact hSound.state.nonNegative key entity value hKey hOld
    · exact hZero

/-- In a sound state the levels have not fallen below zero. -/
theorem Alighted.canLighten (h : w.Alighted person elevator place s) (hNext : s.Sound) :
    w.CanLighten person elevator := by
  refine ⟨?_, ?_⟩
  · intro count hCount
    refine hNext.nonNegative .passengers elevator _ rfl ?_
    rw [h.passengers, hCount]
    rfl
  · intro load weight hLoad hKnown
    refine hNext.nonNegative .load elevator _ rfl ?_
    rw [h.load, hKnown]
    dsimp only
    rw [hLoad]
    rfl

end

end World

-- ---------------------------------------------------------------------------
-- Getting out is accepted
-- ---------------------------------------------------------------------------

/-- The floors of a world are declared. -/
theorem World.contains_of_mem_floorOrder {w : World α} (h : w.Declared) {floor : EntityId}
    (hFloor : floor ∈ w.floorOrder) : w.contains floor = true := by
  rcases mem_floorOrder_iff.mp hFloor with hKind | ⟨other, hAbove | hBelow⟩
  · exact Option.isSome_iff_exists.mpr ⟨.floor, hKind⟩
  · exact (h.relations _ (of_decide_eq_true hAbove)).1
  · exact (h.relations _ (of_decide_eq_true hBelow)).2

/-- The floor an elevator is at is declared. -/
theorem Elevator.Table.contains_elevatorFloor? [Scalar α] {t : Table α} {w : World α} (h : w.Declared)
    (hFloors : ∀ floor ∈ t.floorOrder, w.contains floor = true) {elevator floor : EntityId}
    (hAt : t.elevatorFloor? w elevator = some floor) : w.contains floor = true := by
  unfold elevatorFloor? at hAt
  split at hAt
  · rename_i place hPlace
    cases hAt
    exact (h.relations _ (of_decide_eq_true (World.holds_of_related? hPlace))).2
  · split at hAt
    · split at hAt
      · cases hAt
      · exact hFloors floor (List.mem_of_getElem? hAt)
    · cases hAt

namespace ActionTable

/-- Someone who is in an elevator is let out where the elevator is iff the levels of the elevator do not fall below
zero. -/
theorem dispatch_unload_iff {t : Table Float} {w : World Float} (hSound : w.Sound)
    (hFloors : ∀ floor ∈ t.floorOrder, w.contains floor = true) {p e f : EntityId}
    (hWeight : ∀ weight, w.weight? p = some weight → 0 ≤ weight) (hIn : w.holds ⟨.isIn, p, e⟩ = true)
    (hAt : t.elevatorFloor? w e = some f) (a : TimedAction Float) (clock : Float) :
    ((elevator t).dispatch (.elevator (.unload p e (some f))) a w clock).isOk = true ↔ w.CanLighten p e := by
  have hMem : (⟨.isIn, p, e⟩ : Relation) ∈ w.state.relations := of_decide_eq_true hIn
  constructor
  · intro hOk
    cases hDispatch : (elevator t).dispatch (.elevator (.unload p e (some f))) a w clock with
    | error rejection =>
      rw [hDispatch] at hOk
      cases hOk
    | ok result =>
      rcases (dispatch_elevator hDispatch).2 with ⟨hWait, -⟩ | ⟨act, effects, hAct, hEffects, hApply⟩
      · cases hWait
      · cases hAct
        obtain ⟨-, place, -, rfl⟩ := Table.unload_eq_ok_iff.mp (refusing_eq_ok_iff.mp hEffects)
        have hNext := World.applyEffects_sound hSound hApply
        obtain ⟨-, staged, hStaged, -, hWorld⟩ := World.applyEffects_eq_ok_iff.mp hApply
        rw [hWorld] at hNext
        exact (World.alighted_of_applyAll hStaged).canLighten hNext.state
  · intro hCan
    obtain ⟨hPerson, hElevator⟩ := hSound.declared.relations _ hMem
    have hFloor := Table.contains_elevatorFloor? hSound.declared hFloors hAt
    obtain ⟨staged, hStaged⟩ := World.exists_applyAll_alightEffects hMem f
    have hFunctional := State.applyAll_functional (w.state.functional_iff.mpr hSound.state.functional) hStaged
    have hNext := (World.alighted_of_applyAll hStaged).sound hFunctional hSound hMem hWeight hCan
    have hEffects : t.effects w (.unload p e (some f)) = .ok (w.alightEffects p e f) := by
      refine refusing_eq_ok_iff.mpr (Table.unload_eq_ok_iff.mpr ⟨hIn, f, ?_, rfl⟩)
      simp [Table.dropFloor, hAt]
    have hTouched : ∀ id ∈ World.touchedBy (w.alightEffects p e f), w.contains id = true := by
      intro id hId
      rcases World.mem_touchedBy_alightEffects hId with rfl | rfl | rfl
      · exact hPerson
      · exact hElevator
      · exact hFloor
    have hApply := World.applyEffects_of_sound hTouched hStaged hNext
    have hKnown : ∀ id ∈ (Action.unload p e (some f)).referenced, w.contains id = true := by
      simp [Action.referenced, hPerson, hElevator, hFloor]
    simp only [dispatch]
    rw [hEffects, World.attempt_of_applyEffects hKnown hApply]
    rfl

end ActionTable

-- ---------------------------------------------------------------------------
-- Getting out along a run
-- ---------------------------------------------------------------------------

namespace Simulation

/-- Where nobody was at first and no number of passengers was given, everyone who is in is counted: there can be one
passenger less. -/
theorem passengers_canLighten {t : Table Float} {table : ActionTable Float} {w start : World Float}
    (hReachable : w.Reachable) (hPrepare : (ActionTable.elevator t).prepare w = .ok (table, start)) {p e : EntityId}
    (hUnset : w.level? e .passengers = none) (hEmpty : w.kindOf? e = some .elevator → w.occupancy e = 0)
    {calls : List (SimulationCall Float)}
    (hBounds : ∀ past, past <+: calls → ((Simulation.mk table start).run past).world.occupancy e < 2 ^ 53)
    (hIn : ((Simulation.mk table start).run calls).world.holds ⟨.isIn, p, e⟩ = true) {count : Float}
    (hLevel : ((Simulation.mk table start).run calls).world.level? e .passengers = some count) :
    ¬ count + -1 < 0 := by
  obtain ⟨hTable, hApply⟩ := ActionTable.prepare_elevator hPrepare
  have hSound : start.Sound := World.applyEffects_sound hReachable.sound hApply
  have hLast := run_sound (s := ⟨table, start⟩) hSound calls
  rcases ActionTable.passengers_prepare_cases hPrepare hUnset with hNone | ⟨hKind, hZero⟩
  · -- without a count at first there is none at last
    have hLedger := (ledger_of_run calls e (s := ⟨table, start⟩) hTable hSound).passengers
    rw [hLevel, hNone] at hLedger
    cases hLedger
  · have hFirst := ActionTable.counts_prepare hPrepare hZero
    rw [hEmpty hKind] at hFirst
    have hCounts := counts_of_run calls hTable hSound hFirst hBounds
    have hBound := hBounds calls (List.prefix_refl calls)
    obtain ⟨n, hOccupancy⟩ : ∃ n, ((Simulation.mk table start).run calls).world.occupancy e = n + 1 := by
      refine Nat.exists_eq_succ_of_ne_zero ?_
      exact (List.length_pos_of_mem (State.mem_subjectsOf_iff.mpr (of_decide_eq_true hIn))).ne'
    have hFinite := (hLast.lowered rfl hLevel 1 rfl (by decide)).1
    have hCount := hCounts.passengers
    rw [hOccupancy, Nat.sub_zero, hLevel] at hCount
    cases hCount
    rw [hOccupancy] at hBound
    rw [Double.add_neg, Double.ofNat_sub_one hBound] at hFinite ⊢
    exact (Double.not_lt_iff_le rfl hFinite).mpr (Double.zero_le_ofNat (by omega))

/--
**Getting out.** Take an elevator that nobody is in and that has no number of passengers, in a reachable world for
which a table is prepared, and a person whose weight, if there is one, is not negative. Wherever any calls bring the
two, if the person is in the elevator and the elevator is at a floor, then the person can get out there iff neither
the number of passengers nor the load falls below zero by that. The number of passengers does not, as long as there
are never `2 ^ 53` entities in the elevator. The load is what comes of adding the weights of those who got in and
taking off the weights of those who got out, one after the other.
-/
theorem run_unload_iff {t : Table Float} {table : ActionTable Float} {w start : World Float} (hReachable : w.Reachable)
    (hPrepare : (ActionTable.elevator t).prepare w = .ok (table, start)) {p e : EntityId}
    (hWeight : ∀ weight, w.weight? p = some weight → 0 ≤ weight) (hUnset : w.level? e .passengers = none)
    (hEmpty : w.kindOf? e = some .elevator → w.occupancy e = 0) (calls : List (SimulationCall Float)) :
    let first : Simulation Float := ⟨table, start⟩
    let last := (first.run calls).world
    ∀ f, last.holds ⟨.isIn, p, e⟩ = true → (t.prepare w).1.elevatorFloor? last e = some f →
      (∀ timed clock, ((first.run calls).table.dispatch (.elevator (.unload p e (some f))) timed last clock).isOk =
        true ↔ last.CanLighten p e) ∧
      ((∀ past, past <+: calls → (first.run past).world.occupancy e < 2 ^ 53) →
        ∀ count, last.level? e .passengers = some count → ¬ count + -1 < 0) ∧
      last.level? e .load = (start.level? e .load).map fun load =>
        (burdens w.weight? e (first.accepted calls)).foldl (· + ·) load := by
  intro first last f hIn hAt
  obtain ⟨hTable, hApply⟩ := ActionTable.prepare_elevator hPrepare
  have hSound : start.Sound := World.applyEffects_sound hReachable.sound hApply
  obtain ⟨hLastTable, hKept⟩ := run_elevator (s := first) hTable calls
  have hStartWeights : start.weight? = w.weight? :=
    funext fun entity => ActionTable.fluent?_prepare hPrepare rfl [entity]
  have hLastWeights : last.weight? = start.weight? := funext fun entity => hKept .weight [entity] rfl
  refine ⟨?_, ?_, ?_⟩
  · intro timed clock
    rw [hLastTable]
    refine ActionTable.dispatch_unload_iff (run_sound hSound calls) ?_ ?_ hIn hAt timed clock
    · -- the floors were declared when the table was prepared, and what is declared stays so
      intro floor hFloor
      have hEntities : last.entities = w.entities := by
        obtain ⟨-, staged, -, -, rfl⟩ := World.applyEffects_eq_ok_iff.mp hApply
        exact run_entities first calls
      have hDeclared := World.contains_of_mem_floorOrder hReachable.sound.declared hFloor
      rw [World.contains, hEntities]
      exact hDeclared
    · rw [hLastWeights, hStartWeights]
      exact hWeight
  · intro hBounds count hCount
    exact passengers_canLighten hReachable hPrepare hUnset hEmpty hBounds hIn hCount
  · rw [← hStartWeights]
    exact load_of_run calls e hTable

/-- Two people get in, and the first one gets out. The other one can get out too, though what is left of the load is
not the weight. -/
theorem run_unload_of_two_people :
    let lift : Problem := ⟨"lift", "elevator", [⟨"e", "elevator"⟩, ⟨"f", "floor"⟩, ⟨"p1", "person"⟩, ⟨"p2", "person"⟩],
      [⟨"at", ["e", "f"]⟩, ⟨"at", ["p1", "f"]⟩, ⟨"at", ["p2", "f"]⟩],
      [⟨"capacity", ["e"], 2⟩, ⟨"max-load", ["e"], 1⟩, ⟨"weight", ["p1"], 0.1⟩, ⟨"weight", ["p2"], 0.2⟩], []⟩
    let t : Table Float := .ofConfig .default
    let call (name : String) (action : Action) : SimulationCall Float :=
      .dispatch (.elevator action) ⟨0, 0, name, action.referenced, 1⟩ 0
    let calls := [call "load" (.load ⟨"p1"⟩ ⟨"e"⟩ none), call "load" (.load ⟨"p2"⟩ ⟨"e"⟩ none),
      call "unload" (.unload ⟨"p1"⟩ ⟨"e"⟩ none)]
    let timed : TimedAction Float := ⟨0, 0, "unload", [⟨"p2"⟩, ⟨"e"⟩, ⟨"f"⟩], 2⟩
    ∃ w table start, World.ofProblem lift = .ok w ∧ w.Reachable ∧
      (ActionTable.elevator t).prepare w = .ok (table, start) ∧
      (∀ weight, w.weight? ⟨"p2"⟩ = some weight → 0 ≤ weight) ∧ w.level? ⟨"e"⟩ .passengers = none ∧
      (w.kindOf? ⟨"e"⟩ = some .elevator → w.occupancy ⟨"e"⟩ = 0) ∧
      (∀ past, past <+: calls → ((Simulation.mk table start).run past).world.occupancy ⟨"e"⟩ < 2 ^ 53) ∧
      let first : Simulation Float := ⟨table, start⟩
      let last := (first.run calls).world
      last.holds ⟨.isIn, ⟨"p2"⟩, ⟨"e"⟩⟩ = true ∧ (t.prepare w).1.elevatorFloor? last ⟨"e"⟩ = some ⟨"f"⟩ ∧
        last.level? ⟨"e"⟩ .passengers = some 1 ∧ last.level? ⟨"e"⟩ .load = some (0.1 + 0.2 - 0.1) ∧
        (0.2 : Float) < 0.1 + 0.2 - 0.1 ∧ last.CanLighten ⟨"p2"⟩ ⟨"e"⟩ ∧
        (((first.run calls).table.dispatch (.elevator (.unload ⟨"p2"⟩ ⟨"e"⟩ (some ⟨"f"⟩))) timed last 0).isOk =
          true ↔ last.CanLighten ⟨"p2"⟩ ⟨"e"⟩) ∧
        (∀ count, last.level? ⟨"e"⟩ .passengers = some count → ¬ count + -1 < 0) ∧
        last.level? ⟨"e"⟩ .load = (start.level? ⟨"e"⟩ .load).map fun load =>
          (burdens w.weight? ⟨"e"⟩ (first.accepted calls)).foldl (· + ·) load := by
  intro lift t call calls timed
  have hRun : (ofProblem? lift (.elevator t)).any (fun begun => decide (
      begun.1.weight? ⟨"p2"⟩ = some 0.2 ∧ begun.1.level? ⟨"e"⟩ .passengers = none ∧
      begun.1.occupancy ⟨"e"⟩ = 0 ∧ (∀ past ∈ calls.inits, (begun.2.run past).world.occupancy ⟨"e"⟩ < 2 ^ 53) ∧
      (begun.2.run calls).world.holds ⟨.isIn, ⟨"p2"⟩, ⟨"e"⟩⟩ = true ∧
      (t.prepare begun.1).1.elevatorFloor? (begun.2.run calls).world ⟨"e"⟩ = some ⟨"f"⟩ ∧
      (begun.2.run calls).world.level? ⟨"e"⟩ .passengers = some 1 ∧
      (begun.2.run calls).world.level? ⟨"e"⟩ .load = some (0.1 + 0.2 - 0.1) ∧ (0.2 : Float) < 0.1 + 0.2 - 0.1 ∧
      ((begun.2.run calls).table.dispatch (.elevator (.unload ⟨"p2"⟩ ⟨"e"⟩ (some ⟨"f"⟩))) timed
        (begun.2.run calls).world 0).isOk = true)) = true := by
    decide
  obtain ⟨w, table, start, hWorld, hPrepare, hFacts⟩ := exists_of_ofProblem? hRun
  obtain ⟨hKnown, hUnset, hNobody, hInits, hIn, hAt, hCount, hLoad, hLeft, hOk⟩ := of_decide_eq_true hFacts
  have hReachable : w.Reachable := .ofProblem hWorld
  have hWeight : ∀ weight, w.weight? ⟨"p2"⟩ = some weight → 0 ≤ weight := by
    intro weight h
    rw [hKnown] at h
    cases h
    decide
  have hBounds : ∀ past, past <+: calls → ((Simulation.mk table start).run past).world.occupancy ⟨"e"⟩ < 2 ^ 53 :=
    fun past hPast => hInits past (List.mem_inits past calls |>.mpr hPast)
  obtain ⟨hAccepted, hPassengers, hSum⟩ :=
    run_unload_iff hReachable hPrepare hWeight hUnset (fun _ => hNobody) calls ⟨"f"⟩ hIn hAt
  exact ⟨w, table, start, hWorld, hReachable, hPrepare, hWeight, hUnset, fun _ => hNobody, hBounds, hIn, hAt, hCount,
    hLoad, hLeft, (hAccepted timed 0).mp hOk, hAccepted timed 0, hPassengers hBounds, hSum⟩

/-- Two people get in, and the one who got in last gets out. What is left of the load is less than the weight of the
other one, who cannot get out. -/
theorem run_unload_of_rounded_load :
    let lift : Problem := ⟨"lift", "elevator", [⟨"e", "elevator"⟩, ⟨"f", "floor"⟩, ⟨"p1", "person"⟩, ⟨"p2", "person"⟩],
      [⟨"at", ["e", "f"]⟩, ⟨"at", ["p1", "f"]⟩, ⟨"at", ["p2", "f"]⟩],
      [⟨"max-load", ["e"], 100⟩, ⟨"weight", ["p1"], 0.1⟩, ⟨"weight", ["p2"], 0.7⟩], []⟩
    let call (name : String) (action : Action) : SimulationCall Float :=
      .dispatch (.elevator action) ⟨0, 0, name, action.referenced, 1⟩ 0
    let calls := [call "load" (.load ⟨"p1"⟩ ⟨"e"⟩ (some ⟨"f"⟩)), call "load" (.load ⟨"p2"⟩ ⟨"e"⟩ (some ⟨"f"⟩)),
      call "unload" (.unload ⟨"p2"⟩ ⟨"e"⟩ (some ⟨"f"⟩))]
    ∃ w table start, World.ofProblem lift = .ok w ∧
      (ActionTable.elevator (.ofConfig .default)).prepare w = .ok (table, start) ∧
      w.entitiesOfKind .elevator = [⟨"e"⟩] ∧ w.occupancy ⟨"e"⟩ = 0 ∧ (∀ entry ∈ w.state.fluents.toList, 0 ≤ entry.2) ∧
      w.level? ⟨"e"⟩ .load = none ∧ w.level? ⟨"e"⟩ .passengers = none ∧
      let last := ((Simulation.mk table start).run calls).world
      last.subjectsOf .isIn ⟨"e"⟩ = [⟨"p1"⟩] ∧ last.related? .isAt ⟨"e"⟩ = some ⟨"f"⟩ ∧
        last.level? ⟨"e"⟩ .load = some (0.1 + 0.7 - 0.7) ∧ (0.1 + 0.7 - 0.7 : Float) - 0.1 < 0 ∧
        (((Simulation.mk table start).run calls).table.dispatch (.elevator (.unload ⟨"p1"⟩ ⟨"e"⟩ (some ⟨"f"⟩)))
          ⟨0, 0, "unload", [⟨"p1"⟩, ⟨"e"⟩, ⟨"f"⟩], 1⟩ last 0).isOk = false := by
  intro lift call calls
  have hRun : (ofProblem? lift (.elevator (.ofConfig .default))).any (fun begun => decide (
      begun.1.entitiesOfKind .elevator = [⟨"e"⟩] ∧ begun.1.occupancy ⟨"e"⟩ = 0 ∧
      (∀ entry ∈ begun.1.state.fluents.toList, 0 ≤ entry.2) ∧
      begun.1.level? ⟨"e"⟩ .load = none ∧ begun.1.level? ⟨"e"⟩ .passengers = none ∧
      (begun.2.run calls).world.subjectsOf .isIn ⟨"e"⟩ = [⟨"p1"⟩] ∧
      (begun.2.run calls).world.related? .isAt ⟨"e"⟩ = some ⟨"f"⟩ ∧
      (begun.2.run calls).world.level? ⟨"e"⟩ .load = some (0.1 + 0.7 - 0.7) ∧ (0.1 + 0.7 - 0.7 : Float) - 0.1 < 0 ∧
      ((begun.2.run calls).table.dispatch (.elevator (.unload ⟨"p1"⟩ ⟨"e"⟩ (some ⟨"f"⟩)))
        ⟨0, 0, "unload", [⟨"p1"⟩, ⟨"e"⟩, ⟨"f"⟩], 1⟩ (begun.2.run calls).world 0).isOk = false)) = true := by
    decide
  obtain ⟨w, table, start, hWorld, hPrepare, hFacts⟩ := exists_of_ofProblem? hRun
  exact ⟨w, table, start, hWorld, hPrepare, of_decide_eq_true hFacts⟩

end Simulation

end PlanReplay

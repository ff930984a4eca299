import PlanReplay.Proofs.Domain.Inverse
import PlanReplay.Proofs.Elevator.Unloading
import PlanReplay.Proofs.World.Structure

/-!
# Preconditions are complete

Before an action hands its effects to the world it has looked at its preconditions. They are enough for everything that
is a matter of structure: an action that finds effects removes nothing that does not hold, names nobody who is not
declared, and leaves everyone in one place at most, whichever of its arguments are the same. What the world may still
refuse is a level.

* `Logistics.Table.fits_of_effects`, `Robot.Table.fits_of_effects`, `Elevator.Table.fits_of_passage` — the batches of
  actions fit.
* `Elevator.Table.PreparedFor` — a table that knows the floors of a world.
* `World.not_structural_of_effects` — what the world can refuse the effects of an action for.
-/

namespace PlanReplay

variable {α : Type} [Scalar α]

-- ---------------------------------------------------------------------------
-- Vehicles
-- ---------------------------------------------------------------------------

namespace Logistics.Table

variable {t : Table α} {w : World α}

/-- What a travel burns can be taken off wherever the levels are as they were. -/
theorem exists_burned {s : State α} {mode : Mode} {vehicle : EntityId}
    (hSame : s.level? vehicle .fuel = w.level? vehicle .fuel) :
    ∃ next, s.applyAll (t.burnEffects w mode vehicle) = .ok next := by
  unfold burnEffects
  cases hLevel : w.level? vehicle .fuel with
  | none => exact ⟨s, rfl⟩
  | some level =>
    rw [hLevel] at hSame
    simp only [State.applyAll, State.apply, hSame]
    exact ⟨_, rfl⟩

/-- The effects that an action of a vehicle finds fit the world. -/
theorem fits_of_effects (hSound : w.Sound) {action : Action} {effects : List (Effect α)}
    (h : t.effects w action = .ok effects) : w.state.Fits effects := by
  have hPlaced := hSound.state.placedOnce
  cases action with
  | load package vehicle location =>
    obtain ⟨hPackage, -, rfl⟩ := load_eq_ok h
    exact State.fits_relocation hPlaced (List.forall_mem_nil _) (.isAt location) (.isIn vehicle)
      (of_decide_eq_true hPackage) ⟨_, rfl⟩
  | unload package vehicle location =>
    obtain ⟨hPackage, -, rfl⟩ := unload_eq_ok h
    exact State.fits_relocation hPlaced (List.forall_mem_nil _) (.isIn vehicle) (.isAt location)
      (of_decide_eq_true hPackage) ⟨_, rfl⟩
  | travel mode vehicle start goal extra crossesCities =>
    obtain ⟨hStart, -, rfl⟩ := travel_eq_ok h
    refine State.fits_arrival hPlaced ?_ (of_decide_eq_true hStart) (exists_burned rfl)
    unfold burnEffects
    split
    · exact List.forall_mem_singleton.mpr rfl
    · exact List.forall_mem_nil _
  | refuel vehicle place =>
    obtain rfl := refuel_eq_ok h
    exact State.fits_rest hPlaced (List.forall_mem_singleton.mpr rfl) ⟨_, rfl⟩

end Logistics.Table

-- ---------------------------------------------------------------------------
-- Robots
-- ---------------------------------------------------------------------------

namespace Robot.Table

variable {t : Table α} {w : World α}

/-- Taking up or putting down a ball fits if its effect on the gripper can be staged where grippers count. -/
theorem fits_handEffects (hSound : w.Sound) {ball : EntityId} (old new : Placement)
    (hOld : w.holds (old.relation ball) = true) {gripper : Effect α} (hSpared : gripper.relation? = none)
    (hGripper : t.usesGripper = true → ∃ next, (w.state.relocate ball old new).apply gripper = .ok next) :
    w.state.Fits (t.handEffects (old.relation ball) (new.relation ball) gripper) := by
  refine State.fits_relocation hSound.state.placedOnce ?_ old new (of_decide_eq_true hOld) ?_
  · split
    · exact List.forall_mem_singleton.mpr hSpared
    · exact List.forall_mem_nil _
  · split
    · rename_i hUses
      obtain ⟨next, hNext⟩ := hGripper hUses
      rw [State.applyAll, hNext]
      exact ⟨next, rfl⟩
    · exact ⟨_, rfl⟩

/-- The outcome of a travel fits, whatever the levels have become. -/
theorem fits_outcomeEffects (hSound : w.Sound) {robot start : EntityId} (goal : EntityId)
    (hStart : w.holds ⟨.isAt, robot, start⟩ = true) (route : Route α) (fluents : OrderedMap Fluent α) :
    State.Fits { w.state with fluents := fluents } (outcomeEffects w robot goal route) := by
  have hPlaced : ∀ entity, State.placements { w.state with fluents := fluents } entity ≤ 1 := hSound.state.placedOnce
  unfold outcomeEffects
  split
  · refine State.fits_arrival hPlaced ?_ (of_decide_eq_true hStart) ?_
    · split
      · exact List.forall_mem_singleton.mpr rfl
      · exact List.forall_mem_nil _
    · split
      · exact ⟨_, rfl⟩
      · exact ⟨_, rfl⟩
  · exact State.fits_rest hPlaced (List.forall_mem_singleton.mpr rfl) ⟨_, rfl⟩

/-- The effects that an action of a robot finds fit the world. -/
theorem fits_of_effects (hSound : w.Sound) {clock : α} {action : Action} {effects : List (Effect α)}
    (h : t.effects w clock action = .ok effects) : w.state.Fits effects := by
  have hPlaced := hSound.state.placedOnce
  cases action with
  | move robot start goal =>
    obtain ⟨hStart, -, -, rfl⟩ := move_eq_ok h
    exact State.fits_arrival hPlaced (List.forall_mem_nil _) (of_decide_eq_true hStart) ⟨_, rfl⟩
  | pick ball room robot =>
    obtain ⟨-, hBall, hFree, rfl⟩ := pick_eq_ok h
    refine fits_handEffects hSound (.isAt room) (.carriedBy robot) hBall rfl fun hUses => ?_
    -- the move of the ball has left the fact alone
    have hFact : (⟨free, [robot]⟩ : Fact) ∈ w.state.facts := of_decide_eq_true (hFree hUses)
    exact ⟨_, if_pos hFact⟩
  | drop ball room robot =>
    obtain ⟨-, hHeld, rfl⟩ := drop_eq_ok h
    exact fits_handEffects hSound (.carriedBy robot) (.isAt room) hHeld rfl fun _ => ⟨_, rfl⟩
  | travel robot start goal resume =>
    obtain ⟨-, hStart, -, rfl⟩ := travel_eq_ok h
    -- what is drained first does not matter to the rest
    have hOutcome := fits_outcomeEffects hSound goal hStart (t.route w robot start goal resume)
    unfold drainEffects
    split
    · exact hOutcome _
    · exact hOutcome w.state.fluents
  | startCharge robot =>
    rw [startCharge_effects h]
    exact State.fits_rest hPlaced (List.forall_mem_nil _) ⟨_, rfl⟩
  | stopCharge robot =>
    obtain ⟨-, rfl⟩ := stopCharge_eq_ok h
    unfold chargeEffects
    split
    · exact State.fits_rest hPlaced (List.forall_mem_singleton.mpr rfl) ⟨_, rfl⟩
    · exact State.fits_rest hPlaced (List.forall_mem_nil _) ⟨_, rfl⟩

end Robot.Table

-- ---------------------------------------------------------------------------
-- Elevators
-- ---------------------------------------------------------------------------

namespace Elevator.Table

variable {t : Table α} {w : World α} {person elevator : EntityId} {floor : Option EntityId} {effects : List (Effect α)}

/-- A passage of someone who has the placement that is left fits the world. -/
theorem fits_passageEffects (hSound : w.Sound) {old new : Placement} {count : α} {sign : α → α}
    (hOld : w.holds (old.relation person) = true) :
    w.state.Fits (passageEffects w person elevator old new count sign) := by
  rw [passageEffects, List.append_assoc]
  refine State.fits_relocation hSound.state.placedOnce ?_ old new (of_decide_eq_true hOld)
    (exists_burdened fun _ => rfl)
  intro effect hEffect
  rcases List.mem_append.mp hEffect with hCount | hWeigh
  · exact relation?_of_adjustEffects hCount
  · exact relation?_of_weighEffects hWeigh

/-- Getting in names declared entities and fits: the floor is the one where the person is. -/
theorem commits_of_load (hSound : w.Sound)
    (hKnown : ∀ id ∈ (Action.load person elevator floor).referenced, w.contains id = true)
    (h : t.load w person elevator floor = .ok effects) :
    (∀ effect ∈ effects, ∀ id ∈ effect.touched, w.contains id = true) ∧ w.state.Fits effects := by
  obtain ⟨place, hPlace, rfl⟩ := load_eq_ok h
  have hOld : w.holds ((Placement.isAt place).relation person) = true := World.holds_of_related? hPlace
  obtain ⟨hPerson, hThere⟩ := hSound.declared.relations _ (of_decide_eq_true hOld)
  have hElevator : w.contains elevator = true := hKnown elevator (by simp [Action.referenced])
  refine ⟨fun effect hEffect id hId => ?_, fits_passageEffects hSound hOld⟩
  have hNamed := touched_of_passageEffects hEffect hId
  simp only [Placement.relation, List.mem_cons, List.not_mem_nil, or_false] at hNamed
  rcases hNamed with rfl | rfl | rfl | rfl | rfl <;> assumption

/-- Getting out names declared entities and fits: the floor is the one that is named, or the one where the elevator
is. -/
theorem commits_of_unload (hSound : w.Sound) (hFloors : ∀ floor ∈ t.floorOrder, w.contains floor = true)
    (hKnown : ∀ id ∈ (Action.unload person elevator floor).referenced, w.contains id = true)
    (h : t.unload w person elevator floor = .ok effects) :
    (∀ effect ∈ effects, ∀ id ∈ effect.touched, w.contains id = true) ∧ w.state.Fits effects := by
  obtain ⟨hHeld, place, hDrop, rfl⟩ := unload_eq_ok_iff.mp h
  have hOld : w.holds ((Placement.isIn elevator).relation person) = true := hHeld
  obtain ⟨hPerson, hElevator⟩ := hSound.declared.relations _ (of_decide_eq_true hOld)
  have hThere : w.contains place = true := by
    rcases Option.or_eq_some_iff.mp (dropFloor_eq hDrop) with hNamed | ⟨-, hAt⟩
    · exact hKnown place (by simp [Action.referenced, hNamed])
    · exact contains_elevatorFloor? hSound.declared hFloors hAt
  refine ⟨fun effect hEffect id hId => ?_, fits_passageEffects hSound hOld⟩
  have hNamed := touched_of_passageEffects hEffect hId
  simp only [Placement.relation, List.mem_cons, List.not_mem_nil, or_false] at hNamed
  rcases hNamed with rfl | rfl | rfl | rfl | rfl <;> assumption

end Elevator.Table

/-- Who is declared stays so. -/
theorem World.contains_perform {w : World α} {id : EntityId} (h : w.contains id = true) (call : WorldCall α) :
    (w.perform call).1.contains id = true := by
  rcases w.perform_cases call with ⟨added, kind, hCall⟩ | ⟨effects, ⟨next, hApply, hCall⟩ | ⟨violation, -, hCall⟩⟩
  · rw [hCall, contains_declare, h, Bool.or_true]
  · obtain ⟨-, staged, -, -, rfl⟩ := applyEffects_eq_ok_iff.mp hApply
    rw [hCall]
    exact h
  · rw [hCall]
    exact h

theorem World.contains_foldl_perform (calls : List (WorldCall α)) : ∀ {w : World α} {id : EntityId},
    w.contains id = true → (List.foldl (fun w call => (w.perform call).1) w calls).contains id = true := by
  induction calls with
  | nil => exact fun h => h
  | cons call rest ih => exact fun h => ih (contains_perform h call)

/-- A table that was prepared for a reachable world, from which calls have led to `w` since. -/
def Elevator.Table.PreparedFor (t : Table Float) (w : World Float) : Prop :=
  ∃ unprepared built start calls, built.Reachable ∧
    (ActionTable.elevator unprepared).prepare built = .ok (.elevator t, start) ∧
      w = List.foldl (fun w call => (w.perform call).1) start calls

/-- A prepared table knows of declared floors only. -/
theorem Elevator.Table.PreparedFor.contains {t : Table Float} {w : World Float} (h : t.PreparedFor w) :
    ∀ floor ∈ t.floorOrder, w.contains floor = true := by
  obtain ⟨unprepared, built, start, calls, hReachable, hPrepare, rfl⟩ := h
  obtain ⟨hTable, hApply⟩ := ActionTable.prepare_elevator hPrepare
  cases hTable
  intro floor hFloor
  have hStart : start.contains floor = true := by
    obtain ⟨-, staged, -, -, rfl⟩ := World.applyEffects_eq_ok_iff.mp hApply
    exact World.contains_of_mem_floorOrder hReachable.sound.declared hFloor
  exact World.contains_foldl_perform calls hStart

namespace World

/--
**Validated actions fit.** Take a reachable world, and an action of a vehicle, of a robot, or by which somebody gets
into an elevator or out of it, that names declared entities and whose preconditions yield effects. If the world refuses
the effects, then not because anybody is not declared, because a relation or a fact that is removed does not hold, or
because anybody would have two objects of a functional kind or be in two places. An elevator may stop at the floors that
were known when its table was prepared, and knows of none before.
-/
theorem not_structural_of_effects {w : World Float} (hReachable : w.Reachable) :
    (∀ (t : Logistics.Table Float) action effects, (∀ id ∈ action.referenced, w.contains id = true) →
      t.effects w action = .ok effects → ∀ v, w.applyEffects effects = .error v → v.isStructural = false) ∧
    (∀ (t : Robot.Table Float) clock action effects, (∀ id ∈ action.referenced, w.contains id = true) →
      t.effects w clock action = .ok effects → ∀ v, w.applyEffects effects = .error v → v.isStructural = false) ∧
    ∀ t : Elevator.Table Float, t.floorOrder = [] ∨ t.PreparedFor w → ∀ person elevator floor action effects,
      action = .load person elevator floor ∨ action = .unload person elevator floor →
        (∀ id ∈ action.referenced, w.contains id = true) → t.effects w action = .ok effects →
          ∀ v, w.applyEffects effects = .error v → v.isStructural = false := by
  have hSound : w.Sound := hReachable.sound
  refine ⟨?_, ?_, ?_⟩
  · intro t action effects hKnown hEffects v hRefused
    have hTouched := Logistics.Table.touched_of_effects hEffects
    exact not_structural_of_fits hSound (fun effect hEffect id hId => hKnown id (hTouched effect hEffect id hId))
      (Logistics.Table.fits_of_effects hSound hEffects) hRefused
  · intro t clock action effects hKnown hEffects v hRefused
    have hTouched := Robot.Table.touched_of_effects hEffects
    exact not_structural_of_fits hSound (fun effect hEffect id hId => hKnown id (hTouched effect hEffect id hId))
      (Robot.Table.fits_of_effects hSound hEffects) hRefused
  · rintro t hTable person elevator floor action effects (rfl | rfl) hKnown hEffects v hRefused
    · obtain ⟨hTouched, hFits⟩ := Elevator.Table.commits_of_load hSound hKnown (refusing_eq_ok_iff.mp hEffects)
      exact not_structural_of_fits hSound hTouched hFits hRefused
    · have hFloors : ∀ stop ∈ t.floorOrder, w.contains stop = true := by
        rcases hTable with hNone | hPrepared
        · rw [hNone]
          exact List.forall_mem_nil _
        · exact hPrepared.contains
      obtain ⟨hTouched, hFits⟩ := Elevator.Table.commits_of_unload hSound hFloors hKnown (refusing_eq_ok_iff.mp hEffects)
      exact not_structural_of_fits hSound hTouched hFits hRefused

/-- Somebody is in an elevator whose load is said to be nothing, and cannot get out: the load would fall below zero. -/
theorem not_structural_of_effects_of_passenger :
    let lift : Problem := ⟨"lift", "elevator", [⟨"e", "elevator"⟩, ⟨"f", "floor"⟩, ⟨"p", "person"⟩],
      [⟨"at", ["e", "f"]⟩, ⟨"in", ["p", "e"]⟩], [⟨"load", ["e"], 0⟩, ⟨"weight", ["p"], 1⟩], []⟩
    let t : Elevator.Table Float := .ofConfig .default
    let action : Elevator.Action := .unload ⟨"p"⟩ ⟨"e"⟩ none
    let effects : List (Effect Float) := [.unrelate ⟨.isIn, ⟨"p"⟩, ⟨"e"⟩⟩, .relate ⟨.isAt, ⟨"p"⟩, ⟨"f"⟩⟩,
      .adjust ⟨"e"⟩ .load (-1)]
    let violation : Violation Float := .negativeResource ⟨"e"⟩ .load (-1)
    ∃ w table start, World.ofProblem lift = .ok w ∧ (ActionTable.elevator t).prepare w = .ok (table, start) ∧
      start.Reachable ∧ (t.prepare w).1.PreparedFor start ∧ (∀ id ∈ action.referenced, start.contains id = true) ∧
        (t.prepare w).1.effects start action = .ok effects ∧ start.applyEffects effects = .error violation ∧
          violation.isStructural = false := by
  intro lift t action effects violation
  have hRun : (Simulation.ofProblem? lift (.elevator t)).any (fun begun => decide (
      (∀ id ∈ action.referenced, begun.2.world.contains id = true) ∧
      (t.prepare begun.1).1.effects begun.2.world action = .ok effects ∧
      begun.2.world.applyEffects effects = .error violation)) = true := by
    decide
  obtain ⟨w, table, start, hWorld, hPrepare, hChecked⟩ := Simulation.exists_of_ofProblem? hRun
  obtain ⟨hKnown, hEffects, hRefused⟩ := of_decide_eq_true hChecked
  have hReachable : w.Reachable := .ofProblem hWorld
  have hStart : start.Reachable := hReachable.prepare hPrepare
  have hPrepared : (t.prepare w).1.PreparedFor start :=
    ⟨t, w, start, [], hReachable, (ActionTable.prepare_elevator hPrepare).1 ▸ hPrepare, rfl⟩
  exact ⟨w, table, start, hWorld, hPrepare, hStart, hPrepared, hKnown, hEffects, hRefused,
    (not_structural_of_effects hStart).2.2 _ (Or.inr hPrepared) ⟨"p"⟩ ⟨"e"⟩ none action effects (Or.inr rfl) hKnown
      hEffects violation hRefused⟩

end World

end PlanReplay

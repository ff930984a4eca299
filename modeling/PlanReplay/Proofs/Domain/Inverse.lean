import PlanReplay.Proofs.Domain.Commutation
import PlanReplay.Proofs.World.Relocation

/-!
# Actions that take each other back

Loading and unloading are written apart, each with its own preconditions and effects, and so are taking up a ball and
putting it down. Both actions of a pair relocate one entity, in opposite directions. Whoever is moved is somebody else
than the vehicle or the robot, which is still where it was; and so the second action is accepted and leads back to the
world before the first one.

* `State.applyAll_back` — a relocation and the one back.
* `Logistics.Table.unload_of_load`, `Logistics.Table.load_of_unload`, `Robot.Table.drop_of_pick` — the second action of
  a pair after the first.
* `ActionTable.known_of_dispatch` — an accepted action names declared entities.
* `Simulation.Undoes` — one action takes back another one.
* `Simulation.undoes_of_reachable` — loading, unloading and picking up are taken back in every reachable world.
-/

namespace PlanReplay

variable {α : Type} [Scalar α]

-- ---------------------------------------------------------------------------
-- Batches that lead back
-- ---------------------------------------------------------------------------

/-- A member that is erased and inserted again leaves the set as it was. -/
theorem OrderedSet.insert_erase {β : Type} [Ord β] [DecidableEq β] [Std.LawfulEqOrd β] [Std.TransOrd β]
    {s : OrderedSet β} {a : β} (h : a ∈ s) : (s.erase a).insert a = s := by
  refine OrderedSet.ext fun b => ?_
  rw [mem_insert, mem_erase]
  constructor
  · rintro (rfl | ⟨hOld, -⟩)
    · exact h
    · exact hOld
  · intro hOld
    exact or_iff_not_imp_left.mpr fun hOther => ⟨hOld, hOther⟩

/-- The batch that puts a relocated entity back leads to the state before. -/
theorem State.applyAll_back {s : State α} {x : EntityId} {old new : Placement} (hOnce : s.placements x ≤ 1)
    (hOld : old.relation x ∈ s.relations) (hDiffer : old ≠ new) :
    (s.relocate x old new).applyAll [.unrelate (new.relation x), .relate (old.relation x)] = .ok s := by
  have hThere : new.relation x ∈ (s.relocate x old new).relations := mem_relocate.mpr (Or.inl rfl)
  rw [applyAll_relocate (placements_relocate_le hOnce hOld hOnce) hThere, relocate_relocate hOnce hOld hDiffer]

namespace World

variable {w next : World α}

/-- An attempt that succeeds has found what it names to be declared. -/
theorem known_of_attempt {referenced : List EntityId} {effects : Except (Failure (Violation α)) (List (Effect α))}
    (h : w.attempt referenced effects = .ok next) : ∀ id ∈ referenced, w.contains id = true := by
  unfold attempt at h
  split at h
  · cases h
  · rename_i hNone
    simpa using hNone

omit [Scalar α] in
/-- What holds where an entity has been relocated. -/
theorem holds_relocate {s : State α} {x : EntityId} {old new : Placement} (h : next.state = s.relocate x old new)
    {r : Relation} : next.holds r = true ↔ r = new.relation x ∨ (r ∈ s.relations ∧ r ≠ old.relation x) := by
  rw [holds, h, decide_eq_true_iff, State.mem_relocate]

/-- The world accepts the batch of a relocation as the relocation. -/
theorem state_of_relocation {x : EntityId} {old new : Placement} (hSound : w.Sound)
    (hOld : w.holds (old.relation x) = true)
    (h : w.applyEffects [.unrelate (old.relation x), .relate (new.relation x)] = .ok next) :
    next.state = w.state.relocate x old new := by
  obtain ⟨-, staged, hStaged, -, rfl⟩ := applyEffects_eq_ok_iff.mp h
  have hMoved : w.state.applyAll [.unrelate (old.relation x), .relate (new.relation x)] =
      .ok (w.state.relocate x old new) :=
    State.applyAll_relocate (hSound.state.placedOnce x) (of_decide_eq_true hOld)
  exact Except.ok.inj (hStaged.symm.trans hMoved)

/-- After an accepted batch, one about declared entities that leads back to the state of a sound world is accepted. -/
theorem applyEffects_back (hSound : w.Sound) {forth back : List (Effect α)} (hForth : w.applyEffects forth = .ok next)
    (hKnown : ∀ id ∈ touchedBy back, w.contains id = true) (hBack : next.state.applyAll back = .ok w.state) :
    next.applyEffects back = .ok w := by
  obtain ⟨-, staged, -, -, rfl⟩ := applyEffects_eq_ok_iff.mp hForth
  exact applyEffects_of_sound (w := { w with state := staged }) hKnown hBack hSound.state

/-- An accepted batch leads from a reachable world to a reachable one. -/
theorem Reachable.applyEffects {w next : World Float} (h : w.Reachable) {effects : List (Effect Float)}
    (hApply : w.applyEffects effects = .ok next) : next.Reachable := by
  have hCall : (w.perform (.applyEffects effects)).1 = next := by
    unfold World.perform
    dsimp only
    rw [hApply]
  exact hCall ▸ h.perform (.applyEffects effects)

/-- A reachable world is still reachable when a table has completed it. -/
theorem Reachable.prepare {w start : World Float} (h : w.Reachable) {t table : ActionTable Float}
    (hPrepare : t.prepare w = .ok (table, start)) : start.Reachable := by
  unfold ActionTable.prepare at hPrepare
  dsimp only at hPrepare
  split at hPrepare
  · cases hPrepare
    exact h.applyEffects (by assumption)
  · cases hPrepare

end World

-- ---------------------------------------------------------------------------
-- Vehicles
-- ---------------------------------------------------------------------------

namespace Logistics.Table

variable {w next : World α} {package vehicle location : EntityId} {effects : List (Effect α)}

/-- A package that has been loaded is unloaded where it was. -/
theorem unload_of_load (hSound : w.Sound) (hDiffer : package ≠ vehicle)
    (hLoad : load w package vehicle location = .ok effects) (hApply : w.applyEffects effects = .ok next) :
    ∃ back, unload next package vehicle location = .ok back ∧ next.applyEffects back = .ok w := by
  obtain ⟨hPackage, hVehicle, rfl⟩ := load_eq_ok hLoad
  have hState : next.state = w.state.relocate package (.isAt location) (.isIn vehicle) :=
    World.state_of_relocation hSound hPackage hApply
  have hHeld : next.holds ⟨.isIn, package, vehicle⟩ = true := (World.holds_relocate hState).mpr (Or.inl rfl)
  have hThere : next.holds ⟨.isAt, vehicle, location⟩ = true := by
    refine (World.holds_relocate hState).mpr (Or.inr ⟨of_decide_eq_true hVehicle, ?_⟩)
    simp [Placement.relation, Ne.symm hDiffer]
  have hKnown := (World.applyEffects_eq_ok_iff.mp hApply).1
  refine ⟨_, by rw [unload, if_pos hHeld, if_pos hThere], World.applyEffects_back hSound hApply ?_ ?_⟩
  · simp_all [World.touchedBy, Effect.touched]
  · rw [hState]
    exact State.applyAll_back (hSound.state.placedOnce package) (of_decide_eq_true hPackage) (by simp)

/-- A package that has been unloaded is loaded where it was. Nobody who is in a vehicle is also at a place, and so it is
no vehicle. -/
theorem load_of_unload (hSound : w.Sound) (hUnload : unload w package vehicle location = .ok effects)
    (hApply : w.applyEffects effects = .ok next) :
    ∃ back, load next package vehicle location = .ok back ∧ next.applyEffects back = .ok w := by
  obtain ⟨hPackage, hVehicle, rfl⟩ := unload_eq_ok hUnload
  have hState : next.state = w.state.relocate package (.isIn vehicle) (.isAt location) :=
    World.state_of_relocation hSound hPackage hApply
  have hThere : next.holds ⟨.isAt, package, location⟩ = true := (World.holds_relocate hState).mpr (Or.inl rfl)
  have hMeets : next.holds ⟨.isAt, vehicle, location⟩ = true := by
    refine (World.holds_relocate hState).mpr (Or.inr ⟨of_decide_eq_true hVehicle, ?_⟩)
    simp [Placement.relation]
  have hKnown := (World.applyEffects_eq_ok_iff.mp hApply).1
  refine ⟨_, by rw [load, if_pos hThere, if_pos hMeets], World.applyEffects_back hSound hApply ?_ ?_⟩
  · simp_all [World.touchedBy, Effect.touched]
  · rw [hState]
    exact State.applyAll_back (hSound.state.placedOnce package) (of_decide_eq_true hPackage) (by simp)

end Logistics.Table

-- ---------------------------------------------------------------------------
-- Robots
-- ---------------------------------------------------------------------------

namespace Robot.Table

variable {t : Table α} {w next : World α} {ball room robot : EntityId} {effects : List (Effect α)}

/-- A ball that has been taken up is relocated, with other facts where grippers count; what putting down the ball does
to the gripper gives the facts back. -/
theorem relocated_of_pick (hSound : w.Sound) (hPick : t.pick w ball room robot = .ok effects)
    (hApply : w.applyEffects effects = .ok next) :
    ∃ facts, next.state = State.relocate { w.state with facts := facts } ball (.isAt room) (.carriedBy robot) ∧
      State.applyAll { w.state with facts := facts } (if t.usesGripper then [.assert ⟨free, [robot]⟩] else []) =
        .ok w.state := by
  obtain ⟨-, hBall, hFree, rfl⟩ := pick_eq_ok hPick
  obtain ⟨-, staged, hStaged, -, rfl⟩ := World.applyEffects_eq_ok_iff.mp hApply
  obtain ⟨moved, hMoved, hHand⟩ := State.applyAll_append hStaged
  have hOld : (Placement.isAt room).relation ball ∈ w.state.relations := of_decide_eq_true hBall
  have hRelocated : w.state.applyAll [.unrelate ((Placement.isAt room).relation ball),
      .relate ((Placement.carriedBy robot).relation ball)] =
        .ok (w.state.relocate ball (.isAt room) (.carriedBy robot)) :=
    State.applyAll_relocate (hSound.state.placedOnce ball) hOld
  obtain rfl := Except.ok.inj (hRelocated.symm.trans hMoved)
  by_cases hUses : t.usesGripper = true
  · rw [if_pos hUses] at hHand ⊢
    have hFact : (⟨free, [robot]⟩ : Fact) ∈ w.state.facts := of_decide_eq_true (hFree hUses)
    refine ⟨w.state.facts.erase ⟨free, [robot]⟩, ?_, ?_⟩
    · obtain ⟨last, hRetract, hDone⟩ := State.applyAll_cons hHand
      rw [State.apply, if_pos (by exact hFact)] at hRetract
      cases hRetract
      cases hDone
      rfl
    · simp only [State.applyAll, State.apply, OrderedSet.insert_erase hFact]
  · rw [if_neg hUses] at hHand ⊢
    cases hHand
    exact ⟨w.state.facts, rfl, rfl⟩

/-- A ball that has been taken up is put down where it was. -/
theorem drop_of_pick (clock : α) (hSound : w.Sound) (hDiffer : ball ≠ robot)
    (hKnown : ∀ id ∈ (Action.drop ball room robot).referenced, w.contains id = true)
    (hPick : t.pick w ball room robot = .ok effects) (hApply : w.applyEffects effects = .ok next) :
    ∃ back, t.effects next clock (.drop ball room robot) = .ok back ∧ next.applyEffects back = .ok w := by
  obtain ⟨hNear, hBall, -, -⟩ := pick_eq_ok hPick
  obtain ⟨facts, hState, hHand⟩ := relocated_of_pick hSound hPick hApply
  have hHeld : next.holds ⟨.carries, robot, ball⟩ = true := (World.holds_relocate hState).mpr (Or.inl rfl)
  have hThere : next.holds ⟨.isAt, robot, room⟩ = true := by
    refine (World.holds_relocate hState).mpr (Or.inr ⟨of_decide_eq_true hNear, ?_⟩)
    simp [Placement.relation, Ne.symm hDiffer]
  have hDrop : t.effects next clock (.drop ball room robot) =
      .ok (t.handEffects ⟨.carries, robot, ball⟩ ⟨.isAt, ball, room⟩ (.assert ⟨free, [robot]⟩)) := by
    simp only [Table.effects, drop, awayFrom?, if_pos hThere, if_pos hHeld]
    rfl
  refine ⟨_, hDrop, World.applyEffects_back hSound hApply ?_ ?_⟩
  · intro id hid
    obtain ⟨effect, hEffect, hTouched⟩ := List.mem_flatMap.mp hid
    exact hKnown id (touched_of_effects hDrop effect hEffect id hTouched)
  · rw [hState]
    refine State.applyAll_concat (State.applyAll_back ?_ (of_decide_eq_true hBall) (by simp)) hHand
    exact hSound.state.placedOnce ball

end Robot.Table

-- ---------------------------------------------------------------------------
-- Dispatches
-- ---------------------------------------------------------------------------

namespace ActionTable

variable {w next : World α}

/-- An accepted action names declared entities. -/
theorem known_of_dispatch {t table : ActionTable α} {action : DomainAction} {a : TimedAction α} {clock : α}
    {applied : Applied α} (h : t.dispatch action a w clock = .ok (table, next, applied)) :
    ∀ id ∈ action.arguments, w.contains id = true := by
  unfold dispatch at h
  split at h
  · exact List.forall_mem_nil _
  case h_2 | h_3 | h_4 =>
    split at h
    · exact World.known_of_attempt (by assumption)
    · cases h
  all_goals cases h

/-- An action of a vehicle whose batch the world accepts is accepted. -/
theorem dispatch_logistics_of_batch {t : Logistics.Table α} {action : Logistics.Action} {effects : List (Effect α)}
    (hKnown : ∀ id ∈ action.referenced, w.contains id = true) (hEffects : t.effects w action = .ok effects)
    (hApply : w.applyEffects effects = .ok next) (a : TimedAction α) (clock : α) :
    ∃ applied, (logistics t).dispatch (.logistics action) a w clock = .ok (logistics t, next, applied) := by
  simp only [dispatch, hEffects, refusing_ok, World.attempt_of_applyEffects hKnown hApply]
  exact ⟨_, rfl⟩

/-- An action of a robot whose batch the world accepts is accepted. -/
theorem dispatch_robot_of_batch {t : Robot.Table α} {action : Robot.Action} {effects : List (Effect α)} {clock : α}
    (hKnown : ∀ id ∈ action.referenced, w.contains id = true) (hEffects : t.effects w clock action = .ok effects)
    (hApply : w.applyEffects effects = .ok next) (a : TimedAction α) :
    ∃ applied, (robot t).dispatch (.robot action) a w clock =
      .ok (robot (t.commit next clock action).1, next, applied) := by
  simp only [dispatch, hEffects, refusing_ok, World.attempt_of_applyEffects hKnown hApply]
  exact ⟨_, rfl⟩

end ActionTable

namespace Simulation

/-- A call in a reachable world leads to a reachable world. -/
theorem perform_reachable {s : Simulation Float} (h : s.world.Reachable) (call : SimulationCall Float) :
    (s.perform call).world.Reachable := by
  rcases s.perform_cases call with ⟨-, hSame, -⟩ | ⟨action, -, hDispatch⟩
  · rw [hSame]
    exact h
  · rcases hDispatch.batch with hSame | ⟨effects, hApply⟩
    · rw [hSame]
      exact h
    · exact h.applyEffects hApply

/-- Whenever `action` is accepted, `undo` is accepted right after it, at any time, and leads back to the table and the
world before. -/
def Undoes (s : Simulation α) (action undo : DomainAction) : Prop :=
  ∀ next, s.Dispatches action next → ∀ timed clock, ∃ applied,
    next.table.dispatch undo timed next.world clock = .ok (s.table, s.world, applied)

/-- An action of a vehicle is taken back by one that names the same entities, and whose batch leads back. -/
theorem undoes_logistics {t : Logistics.Table α} {s : Simulation α} (hTable : s.table = .logistics t)
    {action undo : Logistics.Action} (hNames : ∀ id ∈ undo.referenced, id ∈ action.referenced)
    (hBack : ∀ effects next, t.effects s.world action = .ok effects → s.world.applyEffects effects = .ok next →
      ∃ back, t.effects next undo = .ok back ∧ next.applyEffects back = .ok s.world) :
    s.Undoes (.logistics action) (.logistics undo) := by
  rintro next ⟨_, _, _, hDispatch⟩ timed clock
  have hKnown := ActionTable.known_of_dispatch hDispatch
  rw [hTable] at hDispatch
  obtain ⟨hNext, ⟨hWait, -⟩ | ⟨act, effects, hSame, hEffects, hApply⟩⟩ := ActionTable.dispatch_logistics hDispatch
  · cases hWait
  cases hSame
  obtain ⟨back, hUndo, hLeads⟩ := hBack effects next.world hEffects hApply
  rw [hNext, hTable]
  refine ActionTable.dispatch_logistics_of_batch ?_ hUndo hLeads timed clock
  obtain ⟨-, staged, -, -, hWorld⟩ := World.applyEffects_eq_ok_iff.mp hApply
  intro id hid
  rw [hWorld]
  exact hKnown id (hNames id hid)

/-- Putting down a ball takes back taking it up. -/
theorem undoes_pick {t : Robot.Table α} {s : Simulation α} (hTable : s.table = .robot t) (hSound : s.world.Sound)
    {ball room robot : EntityId} (hDiffer : ball ≠ robot) :
    s.Undoes (.robot (.pick ball room robot)) (.robot (.drop ball room robot)) := by
  rintro next ⟨_, _, _, hDispatch⟩ timed clock
  have hKnown := ActionTable.known_of_dispatch hDispatch
  rw [hTable] at hDispatch
  rcases ActionTable.dispatch_robot_cases hDispatch with
    ⟨hWait, -⟩ | ⟨act, effects, hSame, hEffects, hApply, hNext, -⟩
  · cases hWait
  cases hSame
  obtain ⟨back, hDrop, hLeads⟩ := Robot.Table.drop_of_pick clock hSound hDiffer hKnown hEffects hApply
  rw [hNext, hTable]
  refine ActionTable.dispatch_robot_of_batch ?_ hDrop hLeads timed
  obtain ⟨-, staged, -, -, hWorld⟩ := World.applyEffects_eq_ok_iff.mp hApply
  rw [hWorld]
  exact hKnown

/--
**Loading and unloading are inverse.** Take any table and any reachable world. When a vehicle is loaded with a package
other than itself, unloading the package at the same place is accepted right after it and leads back to the same table
and the same world, with all relations, facts and fluents; and so does loading after unloading. When a robot takes up a
ball other than itself, putting it down in the same room is accepted right after it and leads back in the same way,
whether grippers count or not.
-/
theorem undoes_of_reachable {s : Simulation Float} (hReachable : s.world.Reachable) :
    (∀ t, s.table = .logistics t → ∀ package vehicle location, package ≠ vehicle →
      s.Undoes (.logistics (.load package vehicle location)) (.logistics (.unload package vehicle location)) ∧
        s.Undoes (.logistics (.unload package vehicle location)) (.logistics (.load package vehicle location))) ∧
      ∀ t, s.table = .robot t → ∀ ball room robot, ball ≠ robot →
        s.Undoes (.robot (.pick ball room robot)) (.robot (.drop ball room robot)) := by
  have hSound : s.world.Sound := hReachable.sound
  refine ⟨?_, ?_⟩
  · intro t hTable package vehicle location hDiffer
    have hNames : ∀ id ∈ [package, vehicle, location], id ∈ [package, vehicle, location] := fun _ hid => hid
    exact ⟨undoes_logistics hTable hNames fun _ _ => Logistics.Table.unload_of_load hSound hDiffer,
      undoes_logistics hTable hNames fun _ _ => Logistics.Table.load_of_unload hSound⟩
  · intro t hTable ball room robot hDiffer
    exact undoes_pick hTable hSound hDiffer

/-- A truck is loaded and unloaded. A robot whose gripper is free takes up a ball and puts it down. -/
theorem undoes_of_reachable_of_deliveries :
    let delivery : Problem := ⟨"delivery", "logistics", [⟨"t", "truck"⟩, ⟨"p", "package"⟩, ⟨"a", "location"⟩],
      [⟨"at", ["t", "a"]⟩, ⟨"at", ["p", "a"]⟩], [], []⟩
    let sweep : Problem := ⟨"sweep", "robot", [⟨"r", "robot"⟩, ⟨"x", "ball"⟩, ⟨"a", "room"⟩],
      [⟨"at-robby", ["r", "a"]⟩, ⟨"free", ["r"]⟩, ⟨"at", ["x", "a"]⟩], [], []⟩
    let load : DomainAction := .logistics (.load ⟨"p"⟩ ⟨"t"⟩ ⟨"a"⟩)
    let unload : DomainAction := .logistics (.unload ⟨"p"⟩ ⟨"t"⟩ ⟨"a"⟩)
    let pick : DomainAction := .robot (.pick ⟨"x"⟩ ⟨"a"⟩ ⟨"r"⟩)
    let drop : DomainAction := .robot (.drop ⟨"x"⟩ ⟨"a"⟩ ⟨"r"⟩)
    let timed (name : String) (action : DomainAction) : TimedAction Float := ⟨0, 0, name, action.arguments, 1⟩
    let call (name : String) (action : DomainAction) : SimulationCall Float := .dispatch action (timed name action) 0
    (∃ w table start, World.ofProblem delivery = .ok w ∧
      (ActionTable.logistics (.ofConfig .default .classical)).prepare w = .ok (table, start) ∧ start.Reachable ∧
        let s : Simulation Float := ⟨table, start⟩
        s.accepted [call "load-truck" load, call "unload-truck" unload] = [load, unload] ∧ s.Undoes load unload ∧
          (s.perform (call "load-truck" load)).Undoes unload load) ∧
      ∃ w table start, World.ofProblem sweep = .ok w ∧
        (ActionTable.robot (.ofConfig .default)).prepare w = .ok (table, start) ∧ start.Reachable ∧
          let s : Simulation Float := ⟨table, start⟩
          s.accepted [call "pick" pick, call "drop" drop] = [pick, drop] ∧ s.Undoes pick drop := by
  intro delivery sweep load unload pick drop timed call
  refine ⟨?_, ?_⟩
  · have hRun : (ofProblem? delivery (.logistics (.ofConfig .default .classical))).any (fun begun => decide (
        begun.2.accepted [call "load-truck" load, call "unload-truck" unload] = [load, unload])) = true := by
      decide
    obtain ⟨w, table, start, hWorld, hPrepare, hAccepted⟩ := exists_of_ofProblem? hRun
    have hReachable : start.Reachable := World.Reachable.prepare (.ofProblem hWorld) hPrepare
    have hTable : table = .logistics _ := (ActionTable.prepare_logistics hPrepare).1
    have hLoaded := perform_reachable (s := ⟨table, start⟩) hReachable (call "load-truck" load)
    have hKept := (perform_logistics (s := ⟨table, start⟩) hTable (call "load-truck" load)).1
    refine ⟨w, table, start, hWorld, hPrepare, hReachable, of_decide_eq_true hAccepted, ?_, ?_⟩
    · exact ((undoes_of_reachable hReachable).1 _ hTable ⟨"p"⟩ ⟨"t"⟩ ⟨"a"⟩ (by decide)).1
    · exact ((undoes_of_reachable hLoaded).1 _ hKept ⟨"p"⟩ ⟨"t"⟩ ⟨"a"⟩ (by decide)).2
  · have hRun : (ofProblem? sweep (.robot (.ofConfig .default))).any (fun begun => decide (
        begun.2.accepted [call "pick" pick, call "drop" drop] = [pick, drop])) = true := by
      decide
    obtain ⟨w, table, start, hWorld, hPrepare, hAccepted⟩ := exists_of_ofProblem? hRun
    have hReachable : start.Reachable := World.Reachable.prepare (.ofProblem hWorld) hPrepare
    refine ⟨w, table, start, hWorld, hPrepare, hReachable, of_decide_eq_true hAccepted, ?_⟩
    exact (undoes_of_reachable hReachable).2 _ (ActionTable.prepare_robot hPrepare).1 ⟨"x"⟩ ⟨"a"⟩ ⟨"r"⟩ (by decide)

end Simulation

end PlanReplay

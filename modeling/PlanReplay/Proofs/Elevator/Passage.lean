import PlanReplay.Proofs.Domain.Simulation
import PlanReplay.Proofs.World.Spared

/-!
# Getting in and out of elevators

A world keeps two accounts of the people in an elevator: the relations that put them there, and the level that counts
passengers. Both change by the same passages, one for each accepted action that takes someone in or lets someone
out, and nothing else touches them.

* `Elevator.Table.load_eq_ok`, `Elevator.Table.unload_eq_ok_iff` — the effects of getting in and out.
* `World.occupancy` — how many are in an entity.
* `World.Ledger` — both accounts under a list of passages.
* `ActionTable.ledger_of_dispatch`, `Simulation.run_ledger` — the accounts after an accepted action and after a run.
-/

namespace PlanReplay

variable {α : Type}

-- ---------------------------------------------------------------------------
-- Passages
-- ---------------------------------------------------------------------------

namespace Elevator

/-- Someone gets into an elevator or out of it. -/
inductive Passage where
  | boarding
  | leaving
deriving DecidableEq

/-- What a passage adds to the number of passengers. -/
def Passage.change [Scalar α] : Passage → α
  | .boarding => 1
  | .leaving => -1

/-- The passage that an action makes into or out of `elevator`. -/
def Action.passage? (elevator : EntityId) : Action → Option Passage
  | .load _ other _ => if other = elevator then some .boarding else none
  | .unload _ other _ => if other = elevator then some .leaving else none
  | .move _ _ _ | .reached _ _ => none

/-- The levels that actions of elevators change. -/
def varies : ResourceKey → Bool
  | .passengers | .load | .floorIndex => true
  | .capacity | .maxLoad | .weight | .fuel | .battery | .distance | .other _ => false

end Elevator

open Elevator

/-- The passage that an action of any domain makes into or out of `elevator`. -/
def DomainAction.passage? (elevator : EntityId) : DomainAction → Option Passage
  | .elevator action => action.passage? elevator
  | .logistics _ | .robot _ | .wait => none

/-- The passages into and out of `elevator` that actions make, in order. -/
def passages (elevator : EntityId) (actions : List DomainAction) : List Passage :=
  actions.filterMap (DomainAction.passage? elevator)

-- ---------------------------------------------------------------------------
-- The effects of elevator actions
-- ---------------------------------------------------------------------------

namespace Elevator.Table

variable [Scalar α] {t : Table α} {w : World α} {person elevator : EntityId} {floor : Option EntityId}
  {effects : List (Effect α)}

omit [Scalar α] in
/-- What a person's weight changes of the load of an elevator. -/
def weighEffects (w : World α) (person elevator : EntityId) (sign : α → α) : List (Effect α) :=
  match w.level? person .weight with
  | some weight => adjustEffects w elevator .load (sign weight)
  | none => []

omit [Scalar α] in
/-- The effects of a passage: a person leaves a placement for another one, which changes the number of passengers of
an elevator, and its load by the person's weight. -/
def passageEffects (w : World α) (person elevator : EntityId) (old new : Placement) (count : α) (sign : α → α) :
    List (Effect α) :=
  [.unrelate (old.relation person), .relate (new.relation person)] ++ adjustEffects w elevator .passengers count ++
    weighEffects w person elevator sign

/-- A person who gets in has been waiting at a place. -/
theorem load_eq_ok (h : t.load w person elevator floor = .ok effects) :
    ∃ place, w.related? .isAt person = some place ∧
      effects = passageEffects w person elevator (.isAt place) (.isIn elevator) 1 id := by
  unfold load at h
  split at h
  · cases h
  · rename_i place hPlace
    split at h
    · cases h
    · cases h
    · dsimp only at h
      split at h
      · cases h
      · cases h
        exact ⟨place, hPlace, rfl⟩

/-- Who gets out has been in the elevator, and the floor is one on which it lets people out. -/
theorem unload_eq_ok_iff : t.unload w person elevator floor = .ok effects ↔
    w.holds ⟨.isIn, person, elevator⟩ = true ∧ ∃ place, t.dropFloor w elevator floor = .ok place ∧
      effects = passageEffects w person elevator (.isIn elevator) (.isAt place) (-1) fun weight => -weight := by
  unfold unload
  constructor
  · intro h
    split at h
    · rename_i hHeld
      split at h
      · cases h
      · rename_i place hDrop
        cases h
        exact ⟨hHeld, place, hDrop, rfl⟩
    · cases h
  · rintro ⟨hHeld, place, hDrop, rfl⟩
    rw [if_pos hHeld, hDrop]
    rfl

/-- An effect that changes where entities are, and the floor indices of elevators, at most. -/
def Moves (effect : Effect α) : Prop :=
  (∀ r, effect.relation? = some r → r.kind = .isAt) ∧ ∀ fluent, effect.fluent? = some fluent → fluent.key = .floorIndex

omit [Scalar α] in
theorem moves_relate (entity goal : EntityId) : Moves (α := α) (.relate ⟨.isAt, entity, goal⟩) := by
  refine ⟨?_, ?_⟩
  · rintro r ⟨⟩
    rfl
  · rintro fluent ⟨⟩

theorem moves_indexEffects (w : World α) (elevator : EntityId) (target : Option Int) :
    ∀ effect ∈ indexEffects w elevator target, Moves effect := by
  cases target with
  | none => exact List.forall_mem_nil _
  | some target =>
    dsimp only [indexEffects]
    split
    · refine List.forall_mem_singleton.mpr ⟨?_, ?_⟩
      · rintro r ⟨⟩
      · rintro fluent ⟨⟩
        rfl
    · exact List.forall_mem_nil _

theorem moves_moveBetween {direction : Direction} {start goal : EntityId}
    (h : t.moveBetween w direction elevator start goal = .ok effects) : ∀ effect ∈ effects, Moves effect := by
  have hArrival : ∀ {blocked : Bool} {violation : Violation α} {target : Option Int},
      (if blocked then .error violation
        else .ok (.relate ⟨.isAt, elevator, goal⟩ :: indexEffects w elevator target)) = Except.ok effects →
      ∀ effect ∈ effects, Moves effect := by
    intro blocked violation target hOk
    split at hOk
    · cases hOk
    · cases hOk
      exact List.forall_mem_cons.mpr ⟨moves_relate elevator goal, moves_indexEffects w elevator target⟩
  unfold moveBetween at h
  dsimp only at h
  split at h
  · split at h
    · exact hArrival h
    · cases h
  · exact hArrival h

theorem moves_moveNext {direction : Direction} (h : t.moveNext w direction elevator = .ok effects) :
    ∀ effect ∈ effects, Moves effect := by
  unfold moveNext at h
  split at h
  · cases h
  · dsimp only at h
    split at h
    · cases h
    split at h
    · cases h
    cases h
    refine List.forall_mem_append.mpr ⟨?_, moves_indexEffects w elevator _⟩
    split
    · exact List.forall_mem_singleton.mpr (moves_relate elevator _)
    · exact List.forall_mem_nil _

/-- Getting in and out are the only actions that do more than to change where an elevator is. -/
theorem moves_effects {action : Action} (h : t.effects w action = .ok effects) :
    (∃ person elevator floor, action = .load person elevator floor) ∨
      (∃ person elevator floor, action = .unload person elevator floor) ∨
      ((∀ elevator, action.passage? elevator = none) ∧ ∀ effect ∈ effects, Moves effect) := by
  cases action with
  | load person elevator floor => exact Or.inl ⟨person, elevator, floor, rfl⟩
  | unload person elevator floor => exact Or.inr (Or.inl ⟨person, elevator, floor, rfl⟩)
  | move direction elevator floors =>
    refine Or.inr (Or.inr ⟨fun _ => rfl, ?_⟩)
    cases floors with
    | none => exact moves_moveNext h
    | some ends => exact moves_moveBetween (refusing_eq_ok_iff.mp h)
  | reached person floor =>
    refine Or.inr (Or.inr ⟨fun _ => rfl, ?_⟩)
    simp only [Table.effects, noteReached, refusing_eq_ok_iff] at h
    split at h
    · cases h
      split
      · exact List.forall_mem_nil _
      · refine List.forall_mem_singleton.mpr ⟨?_, ?_⟩
        · rintro r ⟨⟩
        · rintro fluent ⟨⟩
    · cases h

/-- A seed sets a level of its elevator to zero. -/
theorem mem_seedEffects {effect : Effect α} (h : effect ∈ seedEffects w elevator) :
    effect = .setLevel elevator .passengers 0 ∨ effect = .setLevel elevator .load 0 := by
  unfold seedEffects at h
  rcases List.mem_append.mp h with hPassengers | hLoad
  · split at hPassengers
    · exact Or.inl (List.mem_singleton.mp hPassengers)
    · cases hPassengers
  · split at hLoad
    · exact Or.inr (List.mem_singleton.mp hLoad)
    · cases hLoad

end Elevator.Table

-- ---------------------------------------------------------------------------
-- Levels
-- ---------------------------------------------------------------------------

namespace Elevator.Table

variable [Scalar α] {w : World α} {person elevator : EntityId} {old new : Placement} {count : α} {sign : α → α}

omit [Scalar α] in
/-- An addition to a level is about that level. -/
theorem fluent_of_adjustEffects {key : ResourceKey} {delta : α} {effect : Effect α} {fluent : Fluent}
    (h : effect ∈ adjustEffects w elevator key delta) (hFluent : effect.fluent? = some fluent) :
    fluent = ⟨key, [elevator]⟩ := by
  unfold adjustEffects at h
  split at h
  · obtain rfl := List.mem_singleton.mp h
    cases hFluent
    rfl
  · cases h

omit [Scalar α] in
theorem fluent_of_weighEffects {effect : Effect α} {fluent : Fluent}
    (h : effect ∈ weighEffects w person elevator sign) (hFluent : effect.fluent? = some fluent) :
    fluent = ⟨.load, [elevator]⟩ := by
  unfold weighEffects at h
  split at h
  · exact fluent_of_adjustEffects h hFluent
  · cases h

omit [Scalar α] in
/-- A passage sets the number of passengers and the load of its elevator, at most. -/
theorem fluent_of_passageEffects {effect : Effect α} {fluent : Fluent}
    (h : effect ∈ passageEffects w person elevator old new count sign) (hFluent : effect.fluent? = some fluent) :
    fluent = ⟨.passengers, [elevator]⟩ ∨ fluent = ⟨.load, [elevator]⟩ := by
  simp only [passageEffects, List.mem_append, List.mem_pair] at h
  rcases h with ((rfl | rfl) | hCount) | hWeigh
  · cases hFluent
  · cases hFluent
  · exact Or.inl (fluent_of_adjustEffects hCount hFluent)
  · exact Or.inr (fluent_of_weighEffects hWeigh hFluent)

/-- The fluents that the effects of an action set are levels that vary. -/
theorem varies_of_effects {t : Table α} {action : Action} {effects : List (Effect α)}
    (h : t.effects w action = .ok effects) {effect : Effect α} (hEffect : effect ∈ effects) {fluent : Fluent}
    (hFluent : effect.fluent? = some fluent) : varies fluent.key = true := by
  rcases moves_effects h with ⟨person, other, floor, rfl⟩ | ⟨person, other, floor, rfl⟩ | ⟨-, hMoves⟩
  · obtain ⟨place, -, rfl⟩ := load_eq_ok (refusing_eq_ok_iff.mp h)
    rcases fluent_of_passageEffects hEffect hFluent with rfl | rfl <;> rfl
  · obtain ⟨-, place, -, rfl⟩ := unload_eq_ok_iff.mp (refusing_eq_ok_iff.mp h)
    rcases fluent_of_passageEffects hEffect hFluent with rfl | rfl <;> rfl
  · rw [(hMoves effect hEffect).2 fluent hFluent]
    rfl

/-- A level to which a batch adds once, if it is there, is that much higher. -/
theorem level?_of_adjusted {before after : List (Effect α)} {key : ResourceKey} {delta : α} {next : State α}
    (hBefore : ∀ effect ∈ before, effect.fluent? ≠ some ⟨key, [elevator]⟩)
    (hAfter : ∀ effect ∈ after, effect.fluent? ≠ some ⟨key, [elevator]⟩)
    (h : w.state.applyAll (before ++ adjustEffects w elevator key delta ++ after) = .ok next) :
    next.level? elevator key = (w.level? elevator key).map (· + delta) := by
  obtain ⟨middle, hMiddle, hLast⟩ := State.applyAll_append h
  obtain ⟨first, hFirst, hAdjusted⟩ := State.applyAll_append hMiddle
  have hSame : first.level? elevator key = w.level? elevator key := State.fluent_of_spared hBefore hFirst
  have hKept : next.level? elevator key = middle.level? elevator key := State.fluent_of_spared hAfter hLast
  rw [hKept]
  unfold adjustEffects at hAdjusted
  cases hLevel : w.level? elevator key with
  | none =>
    rw [hLevel] at hAdjusted hSame
    cases hAdjusted
    exact hSame
  | some level =>
    rw [hLevel] at hAdjusted hSame
    obtain ⟨adjusted, hAdd, hDone⟩ := State.applyAll_cons hAdjusted
    cases hDone
    simp only [State.apply, hSame] at hAdd
    cases hAdd
    exact OrderedMap.get?_insert_self _ _ _

/-- A passage changes the number of passengers of its elevator. -/
theorem passengers_of_passage {next : State α}
    (h : w.state.applyAll (passageEffects w person elevator old new count sign) = .ok next) :
    next.level? elevator .passengers = (w.level? elevator .passengers).map (· + count) := by
  refine level?_of_adjusted ?_ ?_ h
  · intro effect hEffect
    rcases List.mem_pair.mp hEffect with rfl | rfl <;> exact nofun
  · intro effect hEffect hFluent
    cases fluent_of_weighEffects hEffect hFluent

omit [Scalar α] in
/-- A passage takes the person to the new placement. -/
theorem passage_shift : Shift ⟨some elevator, []⟩ person (passageEffects w person elevator old new count sign)
    (some new) := by
  rw [passageEffects, List.append_assoc]
  exact .change old new (burden_within rfl count _ sign)

end Elevator.Table

-- ---------------------------------------------------------------------------
-- Counting who is inside
-- ---------------------------------------------------------------------------

/-- The number of entities that are in an entity. -/
def World.occupancy (w : World α) (container : EntityId) : Nat := (w.subjectsOf .isIn container).length

-- ---------------------------------------------------------------------------
-- The two accounts
-- ---------------------------------------------------------------------------

namespace World

variable [Scalar α]

/-- Between two worlds both accounts of the people in an elevator change by the same passages. -/
structure Ledger (elevator : EntityId) (passages : List Passage) (w next : World α) : Prop where
  occupancy : next.occupancy elevator + passages.count .leaving = w.occupancy elevator + passages.count .boarding
  passengers : next.level? elevator .passengers =
    (w.level? elevator .passengers).map fun count => passages.foldl (fun count passage => count + passage.change) count

variable {elevator : EntityId}

theorem Ledger.refl (w : World α) : Ledger elevator [] w w := ⟨rfl, Option.map_id'.symm⟩

theorem Ledger.trans {first second : List Passage} {w middle next : World α} (h : Ledger elevator first w middle)
    (h' : Ledger elevator second middle next) : Ledger elevator (first ++ second) w next := by
  refine ⟨?_, ?_⟩
  · have hFirst := h.occupancy
    have hSecond := h'.occupancy
    rw [List.count_append, List.count_append]
    omega
  · rw [h'.passengers, h.passengers, Option.map_map]
    simp only [List.foldl_append, Function.comp_def]

/-- A batch that changes where entities are, and floor indices, makes no entry. -/
theorem ledger_of_moves {w next : World α} {effects : List (Effect α)} (hMoves : ∀ effect ∈ effects, Table.Moves effect)
    (h : w.applyEffects effects = .ok next) : Ledger elevator [] w next := by
  obtain ⟨-, staged, hStaged, -, rfl⟩ := applyEffects_eq_ok_iff.mp h
  refine ⟨?_, ?_⟩
  · refine congrArg (· + 0) (State.length_occupants_congr (p := .isIn elevator) ?_)
    intro subject
    refine State.mem_relations_of_spared ?_ hStaged
    intro effect hEffect relation hRelation
    rw [(hMoves effect hEffect).1 relation hRelation]
    exact nofun
  · have hSame : staged.level? elevator .passengers = w.state.level? elevator .passengers := by
      refine State.fluent_of_spared ?_ hStaged
      intro effect hEffect hFluent
      cases (hMoves effect hEffect).2 _ hFluent
    exact hSame.trans Option.map_id'.symm

/-- A passage makes the entry of its elevator. -/
theorem ledger_of_passage {w next : World α} {person other : EntityId} {old new : Placement} {passage : Passage}
    {sign : α → α} (hSound : w.Sound) (hOld : old.relation person ∈ w.state.relations)
    (hLeaves : (if old = .isIn elevator then 1 else 0) =
      ((if other = elevator then some passage else none).toList).count .leaving)
    (hBoards : (if new = .isIn elevator then 1 else 0) =
      ((if other = elevator then some passage else none).toList).count .boarding)
    (h : w.applyEffects (Table.passageEffects w person other old new passage.change sign) = .ok next) :
    Ledger elevator (if other = elevator then some passage else none).toList w next := by
  have hNext : next.Sound := applyEffects_sound hSound h
  obtain ⟨-, staged, hStaged, -, rfl⟩ := applyEffects_eq_ok_iff.mp h
  obtain ⟨hNew, hFrame⟩ := Table.passage_shift.lands hStaged
  refine ⟨?_, ?_⟩
  · rw [← hLeaves, ← hBoards]
    exact State.length_occupants_of_moved hSound.state hNext.state hFrame hOld hNew (.isIn elevator)
  · by_cases hHere : other = elevator
    · subst hHere
      rw [if_pos rfl]
      exact Table.passengers_of_passage hStaged
    · rw [if_neg hHere]
      refine Eq.trans (State.fluent_of_spared ?_ hStaged) Option.map_id'.symm
      intro effect hEffect hFluent
      rcases Table.fluent_of_passageEffects hEffect hFluent with hSame | hSame
      · cases hSame
        exact hHere rfl
      · cases hSame

end World

-- ---------------------------------------------------------------------------
-- Accepted actions
-- ---------------------------------------------------------------------------

namespace ActionTable

variable [Scalar α]

/-- In the domain of elevators an accepted action keeps the table, and is a wait or a batch of effects. -/
theorem dispatch_elevator {t : Table α} {table : ActionTable α} {action : DomainAction} {a : TimedAction α}
    {w next : World α} {clock : α} {applied : Applied α}
    (h : (elevator t).dispatch action a w clock = .ok (table, next, applied)) :
    table = elevator t ∧ ((action = .wait ∧ next = w) ∨
      ∃ act effects, action = .elevator act ∧ t.effects w act = .ok effects ∧ w.applyEffects effects = .ok next) := by
  cases action with
  | wait =>
    cases h
    exact ⟨rfl, Or.inl ⟨rfl, rfl⟩⟩
  | logistics action | robot action => cases h
  | elevator action =>
    simp only [dispatch] at h
    split at h
    · rename_i hAttempt
      cases h
      obtain ⟨effects, hEffects, hApply⟩ := World.effects_of_attempt hAttempt
      exact ⟨rfl, Or.inr ⟨action, effects, rfl, hEffects, hApply⟩⟩
    · cases h

/-- **Ledger of an action.** Whatever action is accepted, both accounts of an elevator change by its passage. -/
theorem ledger_of_effects {t : Table α} {action : Action} {w next : World α} {effects : List (Effect α)}
    (hSound : w.Sound) (hEffects : t.effects w action = .ok effects) (h : w.applyEffects effects = .ok next)
    (e : EntityId) : World.Ledger e (action.passage? e).toList w next := by
  rcases Table.moves_effects hEffects with ⟨person, other, floor, rfl⟩ | ⟨person, other, floor, rfl⟩ | ⟨hNone, hMoves⟩
  · obtain ⟨place, hPlace, rfl⟩ := Table.load_eq_ok (refusing_eq_ok_iff.mp hEffects)
    have hOld : (Placement.isAt place).relation person ∈ w.state.relations :=
      of_decide_eq_true (World.holds_of_related? hPlace)
    refine World.ledger_of_passage hSound hOld ?_ ?_ h
    · by_cases hHere : other = e <;> simp [hHere]
    · by_cases hHere : other = e <;> simp [hHere]
  · obtain ⟨hHeld, place, -, rfl⟩ := Table.unload_eq_ok_iff.mp (refusing_eq_ok_iff.mp hEffects)
    have hOld : (Placement.isIn other).relation person ∈ w.state.relations := of_decide_eq_true hHeld
    refine World.ledger_of_passage hSound hOld ?_ ?_ h
    · by_cases hHere : other = e <;> simp [hHere]
    · by_cases hHere : other = e <;> simp [hHere]
  · rw [hNone e]
    exact World.ledger_of_moves hMoves h

theorem ledger_of_dispatch {t : Table α} {table : ActionTable α} {action : DomainAction} {a : TimedAction α}
    {w next : World α} {clock : α} {applied : Applied α} (hSound : w.Sound)
    (h : (elevator t).dispatch action a w clock = .ok (table, next, applied)) (e : EntityId) :
    World.Ledger e (action.passage? e).toList w next := by
  rcases (dispatch_elevator h).2 with ⟨rfl, rfl⟩ | ⟨act, effects, rfl, hEffects, hApply⟩
  · exact .refl next
  · exact ledger_of_effects hSound hEffects hApply e

/-- An accepted action keeps what does not vary. -/
theorem fluent?_of_dispatch {t : Table α} {table : ActionTable α} {action : DomainAction} {a : TimedAction α}
    {w next : World α} {clock : α} {applied : Applied α}
    (h : (elevator t).dispatch action a w clock = .ok (table, next, applied)) {key : ResourceKey}
    (hKey : varies key = false) (args : List EntityId) : next.fluent? key args = w.fluent? key args := by
  rcases (dispatch_elevator h).2 with ⟨-, rfl⟩ | ⟨act, effects, -, hEffects, hApply⟩
  · rfl
  · obtain ⟨-, staged, hStaged, -, rfl⟩ := World.applyEffects_eq_ok_iff.mp hApply
    refine State.fluent_of_spared ?_ hStaged
    intro effect hEffect hFluent
    rw [Table.varies_of_effects hEffects hEffect hFluent] at hKey
    cases hKey

/-- Preparing a table of elevators notes the order of the floors, and gives the elevators the levels they lack. -/
theorem prepare_elevator {t : Table α} {w start : World α} {table : ActionTable α}
    (h : (elevator t).prepare w = .ok (table, start)) :
    table = elevator (t.prepare w).1 ∧
      w.applyEffects ((w.entitiesOfKind .elevator).flatMap (Table.seedEffects w)) = .ok start := by
  unfold prepare at h
  dsimp only at h
  split at h
  · rename_i hApply
    cases h
    exact ⟨rfl, hApply⟩
  · cases h

/-- Preparing keeps what does not vary. -/
theorem fluent?_prepare {t : Table α} {w start : World α} {table : ActionTable α}
    (h : (elevator t).prepare w = .ok (table, start)) {key : ResourceKey} (hKey : varies key = false)
    (args : List EntityId) : start.fluent? key args = w.fluent? key args := by
  obtain ⟨-, staged, hStaged, -, rfl⟩ := World.applyEffects_eq_ok_iff.mp (prepare_elevator h).2
  refine State.fluent_of_spared ?_ hStaged
  intro effect hEffect hFluent
  obtain ⟨lift, -, hSeed⟩ := List.mem_flatMap.mp hEffect
  rcases Table.mem_seedEffects hSeed with rfl | rfl
  · cases hFluent
    cases hKey
  · cases hFluent
    cases hKey

/-- Preparing moves nobody. -/
theorem occupancy_prepare {t : Table α} {w start : World α} {table : ActionTable α}
    (h : (elevator t).prepare w = .ok (table, start)) (e : EntityId) : start.occupancy e = w.occupancy e := by
  obtain ⟨-, staged, hStaged, -, rfl⟩ := World.applyEffects_eq_ok_iff.mp (prepare_elevator h).2
  refine State.length_occupants_congr (p := .isIn e) ?_
  intro subject
  refine State.mem_relations_of_spared ?_ hStaged
  intro effect hEffect relation hRelation
  obtain ⟨lift, -, hSeed⟩ := List.mem_flatMap.mp hEffect
  rcases Table.mem_seedEffects hSeed with rfl | rfl <;> cases hRelation

end ActionTable

namespace Simulation

variable [Scalar α]

/-- A call on elevators keeps the table. It leaves the world alone, or carries out one action. -/
theorem perform_elevator {t : Table α} {s : Simulation α} (hTable : s.table = .elevator t) (call : SimulationCall α) :
    (s.perform call).table = .elevator t ∧
      ((s.accepted? call = none ∧ (s.perform call).world = s.world) ∨
        ∃ action timed clock applied, s.accepted? call = some action ∧
          (ActionTable.elevator t).dispatch action timed s.world clock =
            .ok ((s.perform call).table, (s.perform call).world, applied)) := by
  rcases s.perform_cases call with ⟨hNone, hWorld, hRests⟩ | ⟨action, hSome, timed, clock, applied, hDispatch⟩
  · rw [hTable] at hRests
    exact ⟨hRests.eq_self nofun, Or.inl ⟨hNone, hWorld⟩⟩
  · rw [hTable] at hDispatch
    exact ⟨(ActionTable.dispatch_elevator hDispatch).1, Or.inr ⟨action, timed, clock, applied, hSome, hDispatch⟩⟩

/-- A call enters the passage that it carries out in both accounts. -/
theorem ledger_of_perform {t : Table α} {s : Simulation α} (hTable : s.table = .elevator t) (hSound : s.world.Sound)
    (call : SimulationCall α) (e : EntityId) :
    World.Ledger e ((s.accepted? call).bind (DomainAction.passage? e)).toList s.world (s.perform call).world := by
  rcases (perform_elevator hTable call).2 with ⟨hNone, hWorld⟩ | ⟨action, timed, clock, applied, hSome, hDispatch⟩
  · rw [hNone, hWorld]
    exact .refl s.world
  · rw [hSome]
    exact ActionTable.ledger_of_dispatch hSound hDispatch e

/-- A call on elevators keeps what does not vary. -/
theorem fluent?_of_perform {t : Table α} {s : Simulation α} (hTable : s.table = .elevator t) (call : SimulationCall α)
    {key : ResourceKey} (hKey : varies key = false) (args : List EntityId) :
    (s.perform call).world.fluent? key args = s.world.fluent? key args := by
  rcases (perform_elevator hTable call).2 with ⟨-, hWorld⟩ | ⟨action, timed, clock, applied, -, hDispatch⟩
  · rw [hWorld]
  · exact ActionTable.fluent?_of_dispatch hDispatch hKey args

/-- Calls on elevators keep the table and what does not vary. -/
theorem run_elevator {t : Table α} {s : Simulation α} (hTable : s.table = .elevator t)
    (calls : List (SimulationCall α)) :
    (s.run calls).table = .elevator t ∧
      ∀ key args, varies key = false → (s.run calls).world.fluent? key args = s.world.fluent? key args := by
  refine run_induction (motive := fun last => last.table = .elevator t ∧
    ∀ key args, varies key = false → last.world.fluent? key args = s.world.fluent? key args)
    ⟨hTable, fun _ _ _ => rfl⟩ ?_ calls
  rintro last call ⟨hLast, hSame⟩
  refine ⟨(perform_elevator hLast call).1, ?_⟩
  intro key args hKey
  exact (fluent?_of_perform hLast call hKey args).trans (hSame key args hKey)

/-- What a sequence of calls enters is what its calls enter, one after the other. -/
theorem ledger_of_run {t : Table α} (calls : List (SimulationCall α)) (e : EntityId) : ∀ {s : Simulation α},
    s.table = .elevator t → s.world.Sound →
      World.Ledger e (passages e (s.accepted calls)) s.world (s.run calls).world := by
  intro s hTable hSound
  refine (run_accounts (motive := fun made last => last.table = .elevator t ∧ last.world.Sound ∧
    World.Ledger e (passages e made) s.world last.world) ⟨hTable, hSound, .refl s.world⟩ ?_ calls).2.2
  rintro made last call ⟨hLast, hLastSound, hMade⟩
  refine ⟨(perform_elevator hLast call).1, perform_sound hLastSound call, ?_⟩
  rw [passages, List.filterMap_append, filterMap_toList_accepted?]
  exact hMade.trans (ledger_of_perform hLast hLastSound call e)

/--
**Passenger ledger.** Take any calls on a table of elevators that was prepared for a reachable world, and any entity.
The number of entities that are in it is the number at first, and one for each boarding that was accepted, less one
for each leaving. Its number of passengers, where it has one after the preparation, is what comes of adding 1 for
each of these boardings and -1 for each of these leavings, in their order; and where it has none it gets none.
-/
theorem run_ledger {t : Table Float} {table : ActionTable Float} {w start : World Float} (hReachable : w.Reachable)
    (hPrepare : (ActionTable.elevator t).prepare w = .ok (table, start)) (calls : List (SimulationCall Float))
    (e : EntityId) :
    let first : Simulation Float := ⟨table, start⟩
    let made := passages e (first.accepted calls)
    let last := (first.run calls).world
    last.occupancy e + made.count .leaving = w.occupancy e + made.count .boarding ∧
      last.level? e .passengers =
        (start.level? e .passengers).map fun count => made.foldl (fun count passage => count + passage.change) count := by
  intro first made last
  obtain ⟨hTable, hApply⟩ := ActionTable.prepare_elevator hPrepare
  have hSound : start.Sound := World.applyEffects_sound hReachable.sound hApply
  have hLedger : World.Ledger e made start last := ledger_of_run calls e hTable hSound
  rw [← ActionTable.occupancy_prepare hPrepare e]
  exact ⟨hLedger.occupancy, hLedger.passengers⟩

/-- Someone boards, and again in vain; then the elevator boards itself, and the first one gets out. -/
theorem run_ledger_of_boarded_self :
    let setup : List (WorldCall Float) :=
      [.declare ⟨"e"⟩ .elevator, .declare ⟨"f"⟩ .floor, .declare ⟨"p"⟩ .person,
        .applyEffects [.relate ⟨.isAt, ⟨"e"⟩, ⟨"f"⟩⟩, .relate ⟨.isAt, ⟨"p"⟩, ⟨"f"⟩⟩, .setLevel ⟨"e"⟩ .capacity 2]]
    let w := setup.foldl (fun w call => (w.perform call).1) World.empty
    let t : Table Float := .ofConfig .default
    let call (name : String) (action : Action) : SimulationCall Float :=
      .dispatch (.elevator action) ⟨0, 0, name, action.referenced, 1⟩ 0
    let calls := [call "load" (.load ⟨"p"⟩ ⟨"e"⟩ none), call "load" (.load ⟨"p"⟩ ⟨"e"⟩ none),
      call "load" (.load ⟨"e"⟩ ⟨"e"⟩ none), call "unload" (.unload ⟨"p"⟩ ⟨"e"⟩ (some ⟨"f"⟩))]
    w.Reachable ∧ ∃ table start, (ActionTable.elevator t).prepare w = .ok (table, start) ∧
      let first : Simulation Float := ⟨table, start⟩
      let made := passages ⟨"e"⟩ (first.accepted calls)
      let last := (first.run calls).world
      made = [.boarding, .boarding, .leaving] ∧ last.subjectsOf .isIn ⟨"e"⟩ = [⟨"e"⟩] ∧
        last.level? ⟨"e"⟩ .passengers = some 1 ∧
        last.occupancy ⟨"e"⟩ + made.count .leaving = w.occupancy ⟨"e"⟩ + made.count .boarding ∧
        last.level? ⟨"e"⟩ .passengers =
          (start.level? ⟨"e"⟩ .passengers).map fun count =>
            made.foldl (fun count passage => count + passage.change) count := by
  intro setup w t call calls
  have hReachable : w.Reachable := .perform (.perform (.perform (.perform .empty _) _) _) _
  have hPrepare : (ActionTable.elevator t).prepare w = .ok (_, _) := rfl
  refine ⟨hReachable, _, _, hPrepare, ?_, ?_, ?_, run_ledger hReachable hPrepare calls ⟨"e"⟩⟩
  · decide
  · decide
  · decide

end Simulation

end PlanReplay

import PlanReplay.Proofs.Elevator.Passage

/-!
# The load of an elevator

The load of an elevator is a sum of weights. Who gets in adds a weight, who gets out takes it off, and nothing else
changes the sum; but it is taken in the order in which people come and go, and rounded each time.

* `burdens` — what actions add to the load of an elevator.
* `Elevator.Table.load_of_passage` — the load after someone has got in or out.
* `ActionTable.load_of_effects`, `Simulation.load_of_run` — the load after an action and after a run.
-/

namespace PlanReplay

open Elevator

variable {α : Type} [Scalar α]

-- ---------------------------------------------------------------------------
-- Weights that come and go
-- ---------------------------------------------------------------------------

/-- What an action adds to the load of `elevator`, when entities weigh what `weight?` says. -/
def Elevator.Action.burden? (weight? : EntityId → Option α) (elevator : EntityId) : Action → Option α
  | .load person other _ => if other = elevator then weight? person else none
  | .unload person other _ => if other = elevator then (weight? person).map fun weight => -weight else none
  | .move _ _ _ | .reached _ _ => none

/-- What an action of any domain adds to the load of `elevator`. -/
def DomainAction.burden? (weight? : EntityId → Option α) (elevator : EntityId) : DomainAction → Option α
  | .elevator action => action.burden? weight? elevator
  | .logistics _ | .robot _ | .wait => none

/-- What actions add to the load of `elevator`, in order. -/
def burdens (weight? : EntityId → Option α) (elevator : EntityId) (actions : List DomainAction) : List α :=
  actions.filterMap (DomainAction.burden? weight? elevator)

/-- The weight of an entity of a world. -/
def World.weight? (w : World α) (entity : EntityId) : Option α := w.level? entity .weight

-- ---------------------------------------------------------------------------
-- One action
-- ---------------------------------------------------------------------------

namespace Elevator.Table

variable {w : World α} {person other : EntityId} {old new : Placement} {count : α} {sign : α → α} {next : State α}

/-- A passage adds the person's weight to the load of its elevator. -/
theorem load_of_passage (h : w.state.applyAll (passageEffects w person other old new count sign) = .ok next) :
    next.level? other .load =
      match w.weight? person with
      | some weight => (w.level? other .load).map (· + sign weight)
      | none => w.level? other .load := by
  have hBefore : ∀ effect ∈ [.unrelate (old.relation person), .relate (new.relation person)] ++
      adjustEffects w other .passengers count, effect.fluent? ≠ some ⟨.load, [other]⟩ := by
    intro effect hEffect hFluent
    rw [List.mem_append, List.mem_pair] at hEffect
    rcases hEffect with (rfl | rfl) | hCount
    · cases hFluent
    · cases hFluent
    · cases fluent_of_adjustEffects hCount hFluent
  unfold passageEffects weighEffects at h
  rw [World.weight?]
  cases hWeight : w.level? person .weight with
  | none =>
    rw [hWeight, List.append_nil] at h
    exact State.fluent_of_spared hBefore h
  | some weight =>
    rw [hWeight, ← List.append_nil (_ ++ _)] at h
    exact level?_of_adjusted hBefore (List.forall_mem_nil _) h

/-- A passage adds the weight to the load of its elevator, and nothing to the loads of others. -/
theorem loads_of_passage (h : w.state.applyAll (passageEffects w person other old new count sign) = .ok next)
    (elevator : EntityId) :
    next.level? elevator .load = (w.level? elevator .load).map fun load =>
      (if other = elevator then (w.weight? person).map sign else none).toList.foldl (· + ·) load := by
  by_cases hHere : other = elevator
  · subst hHere
    rw [load_of_passage h, if_pos rfl]
    cases w.weight? person with
    | none => exact Option.map_id'.symm
    | some weight => rfl
  · rw [if_neg hHere]
    refine Eq.trans (State.fluent_of_spared ?_ h) Option.map_id'.symm
    intro effect hEffect hFluent
    rcases fluent_of_passageEffects hEffect hFluent with hSame | hSame
    · cases hSame
    · cases hSame
      exact hHere rfl

end Elevator.Table

namespace ActionTable

/-- **Load after an action.** Whatever action is carried out, the load of an elevator changes by its burden. -/
theorem load_of_effects {t : Table α} {action : Action} {w next : World α} {effects : List (Effect α)}
    (hEffects : t.effects w action = .ok effects) (h : w.applyEffects effects = .ok next) (e : EntityId) :
    next.level? e .load = (w.level? e .load).map fun load =>
      (action.burden? w.weight? e).toList.foldl (· + ·) load := by
  obtain ⟨-, staged, hStaged, -, rfl⟩ := World.applyEffects_eq_ok_iff.mp h
  rcases Table.moves_effects hEffects with ⟨person, other, floor, rfl⟩ | ⟨person, other, floor, rfl⟩ | ⟨hNone, hMoves⟩
  · obtain ⟨place, -, rfl⟩ := Table.load_eq_ok (refusing_eq_ok_iff.mp hEffects)
    have hLoad := Table.loads_of_passage hStaged e
    rw [Option.map_id] at hLoad
    exact hLoad
  · obtain ⟨-, place, -, rfl⟩ := Table.unload_eq_ok_iff.mp (refusing_eq_ok_iff.mp hEffects)
    exact Table.loads_of_passage hStaged e
  · have hNothing : action.burden? w.weight? e = none := by
      cases action with
      | load person other floor => cases (hNone other).symm.trans (if_pos rfl)
      | unload person other floor => cases (hNone other).symm.trans (if_pos rfl)
      | move | reached => rfl
    rw [hNothing]
    refine Eq.trans (State.fluent_of_spared ?_ hStaged) Option.map_id'.symm
    intro effect hEffect hFluent
    cases (hMoves effect hEffect).2 _ hFluent

end ActionTable

-- ---------------------------------------------------------------------------
-- Runs
-- ---------------------------------------------------------------------------

namespace Simulation

/-- A call adds the burden of the action that it carries out. -/
theorem load_of_perform {t : Table α} {s : Simulation α} (hTable : s.table = .elevator t) (call : SimulationCall α)
    (e : EntityId) :
    (s.perform call).world.level? e .load = (s.world.level? e .load).map fun load =>
      ((s.accepted? call).bind (DomainAction.burden? s.world.weight? e)).toList.foldl (· + ·) load := by
  rcases (perform_elevator hTable call).2 with ⟨hNone, hWorld⟩ | ⟨action, timed, clock, applied, hSome, hDispatch⟩
  · rw [hNone, hWorld]
    exact Option.map_id'.symm
  · rw [hSome]
    rcases (ActionTable.dispatch_elevator hDispatch).2 with ⟨rfl, hWorld⟩ | ⟨act, effects, rfl, hEffects, hApply⟩
    · rw [hWorld]
      exact Option.map_id'.symm
    · exact ActionTable.load_of_effects hEffects hApply e

/-- **Load after a run.** The load of an elevator is what comes of adding the weights of those who get in, and taking
off the weights of those who get out, one after the other. -/
theorem load_of_run {t : Table α} (calls : List (SimulationCall α)) (e : EntityId) : ∀ {s : Simulation α},
    s.table = .elevator t →
      (s.run calls).world.level? e .load = (s.world.level? e .load).map fun load =>
        (burdens s.world.weight? e (s.accepted calls)).foldl (· + ·) load := by
  intro s hTable
  -- nobody's weight changes
  refine (run_accounts (motive := fun made last => last.table = .elevator t ∧
    last.world.weight? = s.world.weight? ∧ last.world.level? e .load = (s.world.level? e .load).map fun load =>
      (burdens s.world.weight? e made).foldl (· + ·) load) ⟨hTable, rfl, Option.map_id'.symm⟩ ?_ calls).2.2
  rintro made last call ⟨hLast, hWeights, hMade⟩
  have hKept : (last.perform call).world.weight? = last.world.weight? :=
    funext fun entity => fluent?_of_perform hLast call rfl [entity]
  refine ⟨(perform_elevator hLast call).1, hKept.trans hWeights, ?_⟩
  rw [load_of_perform hLast call e, hMade, hWeights, Option.map_map, burdens, burdens, List.filterMap_append,
    filterMap_toList_accepted?]
  simp only [List.foldl_append, Function.comp_def]

end Simulation

end PlanReplay

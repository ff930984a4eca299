import PlanReplay.Proofs.Elevator.Passage
import PlanReplay.Proofs.Logistics.Run
import PlanReplay.Proofs.Robot.Effects
import PlanReplay.Proofs.World.Containment

/-!
# Containment along runs

Three actions put an entity into a holder: boarding an elevator, loading a vehicle and picking up a ball. No action
asks whether the holder is that entity, or is held by it. An action that passes over this closes a cycle, and no
other action does.

* `DomainAction.taken?` — the entity that an action takes up, and its holder.
* `Taking` — what effects do to containment; `ActionTable.taking_of_dispatch` — every accepted action is of this form.
* `Simulation.Entangles` — a call takes up an entity that holds the holder already.
* `Simulation.acyclic_of_dispatches` — containment along a run.
* `Simulation.truck_loads_itself` — a truck is loaded into itself.
-/

namespace PlanReplay

variable {α : Type}

-- ---------------------------------------------------------------------------
-- Who is taken up
-- ---------------------------------------------------------------------------

/-- The person who gets into an elevator, and the elevator. -/
def Elevator.Action.taken? : Elevator.Action → Option (EntityId × EntityId)
  | .load person elevator _ => some (person, elevator)
  | .move _ _ _ | .unload _ _ _ | .reached _ _ => none

/-- The package that is loaded, and the vehicle. -/
def Logistics.Action.taken? : Logistics.Action → Option (EntityId × EntityId)
  | .load package vehicle _ => some (package, vehicle)
  | .unload _ _ _ | .travel _ _ _ _ _ _ | .refuel _ _ => none

/-- The ball that is picked up, and the robot. -/
def Robot.Action.taken? : Robot.Action → Option (EntityId × EntityId)
  | .pick ball _ robot => some (ball, robot)
  | .move _ _ _ | .drop _ _ _ | .travel _ _ _ _ | .startCharge _ | .stopCharge _ => none

/-- The entity that an action takes up, and its holder afterwards. -/
def DomainAction.taken? : DomainAction → Option (EntityId × EntityId)
  | .elevator action => action.taken?
  | .logistics action => action.taken?
  | .robot action => action.taken?
  | .wait => none

/-- A batch puts an entity into a holder, or it puts nobody into one. -/
inductive Taking (scope : Scope) (effects : List (Effect α)) : Option (EntityId × EntityId) → Prop where
  | take {x holder : EntityId} {p : Placement} (hHolder : p.holder? = some holder)
      (hShift : Shift scope x effects (some p)) : Taking scope effects (some (x, holder))
  | free {x : EntityId} {landing : Option Placement} (hFree : landing.bind Placement.holder? = none)
      (hShift : Shift scope x effects landing) : Taking scope effects none

-- ---------------------------------------------------------------------------
-- The three domains
-- ---------------------------------------------------------------------------

section

variable [Scalar α] {w : World α} {effects : List (Effect α)}

omit [Scalar α] in
/-- Effects that move entities to places put nobody into a holder. -/
theorem Taking.of_moves {scope : Scope} {x : EntityId} {landing : Option Placement}
    (hMoves : ∀ effect ∈ effects, Elevator.Table.Moves effect) (hShift : Shift scope x effects landing) :
    Taking scope effects none := by
  refine .free ?_ hShift
  cases hShift with
  | stay hWithin => rfl
  | @land before after p hBefore hAfter =>
    have hKind : (p.relation x).kind = .isAt := (hMoves (.relate (p.relation x)) (by simp)).1 _ rfl
    cases p with
    | isAt place => rfl
    | isIn container | carriedBy carrier => cases hKind

theorem Elevator.Table.taking {t : Table α} {action : Action} (h : t.effects w action = .ok effects) :
    Taking action.scope effects action.taken? := by
  rcases moves_effects h with ⟨person, elevator, floor, rfl⟩ | ⟨person, elevator, floor, rfl⟩ | ⟨hNone, hMoves⟩
  · obtain ⟨place, -, rfl⟩ := load_eq_ok (refusing_eq_ok_iff.mp h)
    exact .take rfl passage_shift
  · obtain ⟨-, place, -, rfl⟩ := unload_eq_ok_iff.mp (refusing_eq_ok_iff.mp h)
    exact .free rfl passage_shift
  · cases action with
    | load person elevator floor => exact absurd (hNone elevator) (by simp [Action.passage?])
    | unload person elevator floor => exact absurd (hNone elevator) (by simp [Action.passage?])
    | move direction elevator floors =>
      have hShift : ∃ landing, Shift (Action.move direction elevator floors).scope elevator effects landing := by
        cases floors with
        | none => exact (moveNext_shift rfl h).1
        | some ends => exact ⟨_, moveBetween_shift rfl (refusing_eq_ok_iff.mp h)⟩
      obtain ⟨landing, hShift⟩ := hShift
      exact .of_moves hMoves hShift
    | reached person floor =>
      obtain ⟨x, landing, -, hShift⟩ := (deed ⟨0, 0, "", [], 0⟩ h).shift
      exact .of_moves hMoves hShift

theorem Logistics.Table.taking {t : Table α} {action : Action} (h : t.effects w action = .ok effects) :
    Taking action.scope effects action.taken? := by
  have hShift : Shift action.scope action.subject effects action.landing? := by
    refine shift_of_effects ?_ h
    cases action <;> rfl
  cases action with
  | load package vehicle location => exact .take rfl hShift
  | unload | travel | refuel => exact .free rfl hShift

theorem Robot.Table.taking {t : Table α} {clock : α} {action : Action} (h : t.effects w clock action = .ok effects) :
    Taking action.scope effects action.taken? := by
  have hShift : Shift action.scope action.subject effects (t.landing? w action) := by
    refine shift_of_effects ?_ (fun _ => ?_) h <;> cases action <;> simp [Action.scope, Action.robot]
  cases action with
  | pick ball room robot => exact .take rfl hShift
  | travel robot start goal resume =>
    refine .free ?_ hShift
    dsimp only [landing?]
    split <;> rfl
  | move | drop | startCharge | stopCharge => exact .free rfl hShift

/-- A vehicle that takes in a package is at a place. -/
theorem Logistics.Table.place_of_taken {t : Table α} {action : Action} (h : t.effects w action = .ok effects)
    {x holder : EntityId} (hTaken : action.taken? = some (x, holder)) :
    ∃ place, w.holds ⟨.isAt, holder, place⟩ = true := by
  cases action with
  | load package vehicle location =>
    cases hTaken
    exact ⟨location, (load_eq_ok h).2.1⟩
  | unload | travel | refuel => cases hTaken

/-- A robot that picks up a ball is at a place. -/
theorem Robot.Table.place_of_taken {t : Table α} {clock : α} {action : Action}
    (h : t.effects w clock action = .ok effects) {x holder : EntityId} (hTaken : action.taken? = some (x, holder)) :
    ∃ place, w.holds ⟨.isAt, holder, place⟩ = true := by
  cases action with
  | pick ball room robot =>
    cases hTaken
    exact ⟨room, (pick_eq_ok h).1⟩
  | move | drop | travel | startCharge | stopCharge => cases hTaken

end

-- ---------------------------------------------------------------------------
-- Accepted actions
-- ---------------------------------------------------------------------------

section

variable [Scalar α]

/-- An accepted action changes nothing and takes up nobody, or takes up the entity that it says. Vehicles and robots
that take up an entity are at a place. -/
theorem ActionTable.taking_of_dispatch {t table : ActionTable α} {action : DomainAction} {a : TimedAction α}
    {w next : World α} {clock : α} {applied : Applied α}
    (h : t.dispatch action a w clock = .ok (table, next, applied)) :
    (next = w ∧ action.taken? = none) ∨
      ∃ effects, w.applyEffects effects = .ok next ∧ Taking action.scope effects action.taken? ∧
        (t.domain ≠ .elevator → ∀ x holder, action.taken? = some (x, holder) →
          ∃ place, w.holds ⟨.isAt, holder, place⟩ = true) := by
  unfold dispatch at h
  split at h
  · cases h
    exact Or.inl ⟨rfl, rfl⟩
  · split at h
    · rename_i hAttempt
      cases h
      obtain ⟨effects, hEffects, hApply⟩ := World.effects_of_attempt hAttempt
      exact Or.inr ⟨effects, hApply, Elevator.Table.taking hEffects, fun hOther => absurd rfl hOther⟩
    · cases h
  · split at h
    · rename_i hAttempt
      cases h
      obtain ⟨effects, hOutcome, hApply⟩ := World.effects_of_attempt hAttempt
      have hEffects := refusing_eq_ok_iff.mp hOutcome
      exact Or.inr ⟨effects, hApply, Logistics.Table.taking hEffects,
        fun _ _ _ hTaken => Logistics.Table.place_of_taken hEffects hTaken⟩
    · cases h
  · split at h
    · rename_i hAttempt
      cases h
      obtain ⟨effects, hOutcome, hApply⟩ := World.effects_of_attempt hAttempt
      have hEffects := refusing_eq_ok_iff.mp hOutcome
      exact Or.inr ⟨effects, hApply, Robot.Table.taking hEffects,
        fun _ _ _ hTaken => Robot.Table.place_of_taken hEffects hTaken⟩
    · cases h
  all_goals cases h

/-- Containment has a cycle after an accepted action, where it had none, iff the action takes up an entity that holds
the holder already. -/
theorem ActionTable.acyclic_of_dispatch_iff {t table : ActionTable α} {action : DomainAction} {a : TimedAction α}
    {w next : World α} {clock : α} {applied : Applied α} (hAcyclic : w.Acyclic)
    (h : t.dispatch action a w clock = .ok (table, next, applied)) :
    next.Acyclic ↔ ∀ x holder, action.taken? = some (x, holder) → ¬ Relation.ReflTransGen w.HeldBy holder x := by
  rcases taking_of_dispatch h with ⟨rfl, hNobody⟩ | ⟨effects, hApply, hTaking, -⟩
  · simp [hNobody, hAcyclic]
  · generalize action.taken? = taken? at hTaking
    cases hTaking with
    | @take x holder p hHolder hShift =>
      rw [World.acyclic_of_shift_iff hAcyclic hShift hApply]
      constructor
      · rintro hApart _ _ ⟨⟩
        exact hApart holder hHolder
      · intro hApart other hOther
        obtain rfl : holder = other := Option.some.inj (hHolder.symm.trans hOther)
        exact hApart x holder rfl
    | free hFree hShift =>
      rw [World.acyclic_of_shift_iff hAcyclic hShift hApply, hFree]
      simp

/-- A holder that is at a place holds nobody who holds it: the only entity that it can wrongly take up is itself. -/
theorem ActionTable.eq_of_taken {t table : ActionTable α} {action : DomainAction} {a : TimedAction α}
    {w next : World α} {clock : α} {applied : Applied α} (h : t.dispatch action a w clock = .ok (table, next, applied))
    {x holder : EntityId} (hTaken : action.taken? = some (x, holder))
    (hPlace : t.domain ≠ .elevator ∨ ∃ place, w.holds ⟨.isAt, holder, place⟩ = true)
    (hHeld : Relation.ReflTransGen w.HeldBy holder x) : holder = x := by
  rcases taking_of_dispatch h with ⟨-, hNobody⟩ | ⟨effects, hApply, hTaking, hAt⟩
  · rw [hNobody] at hTaken
    cases hTaken
  · obtain ⟨place, hPlace⟩ := hPlace.elim (fun hDomain => hAt hDomain x holder hTaken) id
    rw [hTaken] at hTaking
    cases hTaking with
    | take hHolder hShift => exact World.eq_of_held hShift hHolder hApply hPlace hHeld

end

-- ---------------------------------------------------------------------------
-- Runs
-- ---------------------------------------------------------------------------

namespace Simulation

variable [Scalar α]

/-- A call takes an entity into a holder that is this entity, or that is in it or carried by it, directly or through
others. -/
def Entangles (s : Simulation α) (call : SimulationCall α) : Prop :=
  ∃ action x holder, s.accepted? call = some action ∧ action.taken? = some (x, holder) ∧
    Relation.ReflTransGen s.world.HeldBy holder x

/-- A call that does not entangle keeps containment without cycles. -/
theorem perform_acyclic {s : Simulation α} (hAcyclic : s.world.Acyclic) {call : SimulationCall α}
    (h : ¬ s.Entangles call) : (s.perform call).world.Acyclic := by
  rcases s.perform_cases call with ⟨-, hWorld, -⟩ | ⟨action, hSome, timed, clock, applied, hDispatch⟩
  · rw [hWorld]
    exact hAcyclic
  · refine (ActionTable.acyclic_of_dispatch_iff hAcyclic hDispatch).mpr ?_
    intro x holder hTaken hHeld
    exact h ⟨action, x, holder, hSome, hTaken, hHeld⟩

/-- Calls none of which entangles keep containment without cycles. -/
theorem run_acyclic (calls : List (SimulationCall α)) : ∀ {s : Simulation α}, s.world.Acyclic →
    (∀ before call after, calls = before ++ call :: after → ¬ (s.run before).Entangles call) →
      (s.run calls).world.Acyclic := by
  induction calls with
  | nil => exact fun {s} hAcyclic _ => hAcyclic
  | cons first rest ih =>
    intro s hAcyclic hCalls
    have hNext : (s.perform first).world.Acyclic := perform_acyclic hAcyclic (hCalls [] first rest rfl)
    cases hCrash : s.crash? first with
    | some crash =>
      rw [(run_of_crash hCrash rest).1]
      exact hAcyclic
    | none =>
      rw [run_cons hCrash]
      refine ih hNext ?_
      rintro before call after rfl
      rw [← run_cons hCrash]
      exact hCalls (first :: before) call after rfl

/--
**Containment has no cycle.** Let containment have no cycle in the world of a simulation.

After an accepted action it has none either, unless the action takes an entity into a holder that is this entity, or
is in it or carried by it, directly or through others; then it has one. A vehicle or a robot that takes up an entity,
and an elevator that is at a place, are not held by anyone, and so this happens only to an entity that is taken into
itself.

Along a run in which no call does so, no entity is ever in itself or carried by itself, directly or through others.
-/
theorem acyclic_of_dispatches {s : Simulation α} (hAcyclic : s.world.Acyclic) :
    (∀ action next, s.Dispatches action next →
      (next.world.Acyclic ↔
        ∀ x holder, action.taken? = some (x, holder) → ¬ Relation.ReflTransGen s.world.HeldBy holder x) ∧
      ∀ x holder, action.taken? = some (x, holder) →
        (s.table.domain ≠ .elevator ∨ ∃ place, s.world.holds ⟨.isAt, holder, place⟩ = true) →
          Relation.ReflTransGen s.world.HeldBy holder x → holder = x) ∧
    ∀ calls, (∀ before call after, calls = before ++ call :: after → ¬ (s.run before).Entangles call) →
      ∀ before after, calls = before ++ after → (s.run before).world.Acyclic := by
  refine ⟨?_, ?_⟩
  · rintro action next ⟨timed, clock, applied, hDispatch⟩
    refine ⟨ActionTable.acyclic_of_dispatch_iff hAcyclic hDispatch, ?_⟩
    intro x holder hTaken hPlace hHeld
    exact ActionTable.eq_of_taken hDispatch hTaken hPlace hHeld
  · rintro calls hCalls before after rfl
    refine run_acyclic before hAcyclic ?_
    rintro earlier call later rfl
    exact hCalls earlier call (later ++ after) (by simp)

/-- Two elevators are at a floor. One takes in the other, which is allowed and leaves it without a place; then the
other one takes in the first. -/
theorem acyclic_of_dispatches_of_two_elevators :
    let lift : Problem := ⟨"lift", "elevator", [⟨"e1", "elevator"⟩, ⟨"e2", "elevator"⟩, ⟨"f1", "floor"⟩],
      [⟨"at", ["e1", "f1"]⟩, ⟨"at", ["e2", "f1"]⟩], [], []⟩
    let load (x holder : EntityId) : DomainAction := .elevator (.load x holder (some ⟨"f1"⟩))
    let call (x holder : EntityId) : SimulationCall Float :=
      .dispatch (load x holder) ⟨0, 0, "load", [x, holder, ⟨"f1"⟩], 1⟩ 0
    ∃ w table start, World.ofProblem lift = .ok w ∧
      (ActionTable.elevator (.ofConfig .default)).prepare w = .ok (table, start) ∧
      let first : Simulation Float := ⟨table, start⟩
      let second := first.perform (call ⟨"e1"⟩ ⟨"e2"⟩)
      let third := second.perform (call ⟨"e2"⟩ ⟨"e1"⟩)
      first.accepted [call ⟨"e1"⟩ ⟨"e2"⟩, call ⟨"e2"⟩ ⟨"e1"⟩] = [load ⟨"e1"⟩ ⟨"e2"⟩, load ⟨"e2"⟩ ⟨"e1"⟩] ∧
        first.world.Acyclic ∧ second.world.Acyclic ∧
        third.world.relations = [⟨.isIn, ⟨"e1"⟩, ⟨"e2"⟩⟩, ⟨.isIn, ⟨"e2"⟩, ⟨"e1"⟩⟩] ∧ ¬ third.world.Acyclic := by
  intro lift load call
  have hRun : (ofProblem? lift (.elevator (.ofConfig .default))).any (fun begun => decide (
      (∀ r ∈ begun.2.world.relations, r.kind ≠ .isIn ∧ r.kind ≠ .carries) ∧
      begun.2.accepted? (call ⟨"e1"⟩ ⟨"e2"⟩) = some (load ⟨"e1"⟩ ⟨"e2"⟩) ∧
      (begun.2.perform (call ⟨"e1"⟩ ⟨"e2"⟩)).accepted? (call ⟨"e2"⟩ ⟨"e1"⟩) = some (load ⟨"e2"⟩ ⟨"e1"⟩) ∧
      (begun.2.perform (call ⟨"e1"⟩ ⟨"e2"⟩)).world.holds ⟨.isIn, ⟨"e1"⟩, ⟨"e2"⟩⟩ = true ∧
      ((begun.2.perform (call ⟨"e1"⟩ ⟨"e2"⟩)).perform (call ⟨"e2"⟩ ⟨"e1"⟩)).world.relations =
        [⟨.isIn, ⟨"e1"⟩, ⟨"e2"⟩⟩, ⟨.isIn, ⟨"e2"⟩, ⟨"e1"⟩⟩])) = true := by
    decide
  obtain ⟨w, table, start, hWorld, hPrepare, hFacts⟩ := exists_of_ofProblem? hRun
  obtain ⟨hKinds, hFirst, hSecond, hHeld, hLast⟩ := of_decide_eq_true hFacts
  have hNobody := World.not_heldBy_of_kinds hKinds
  have hBegin : start.Acyclic := World.acyclic_of_not_heldBy hNobody
  have hMiddle : ((Simulation.mk table start).perform (call ⟨"e1"⟩ ⟨"e2"⟩)).world.Acyclic := by
    refine (((acyclic_of_dispatches hBegin).1 _ _ (dispatches_of_accepted? hFirst)).1).mpr ?_
    rintro _ _ ⟨⟩ hPath
    -- the second elevator is another one, and it is not held by anyone
    rcases hPath.cases_head with hSame | ⟨holder, hStep, -⟩
    · exact absurd hSame (by decide)
    · exact hNobody _ _ hStep
  refine ⟨w, table, start, hWorld, hPrepare, ?_, hBegin, hMiddle, hLast, ?_⟩
  · rw [accepted_cons (crash?_of_accepted? hFirst), accepted_cons (crash?_of_accepted? hSecond), hFirst, hSecond]
    rfl
  · intro hEnd
    have hApart := (((acyclic_of_dispatches hMiddle).1 _ _ (dispatches_of_accepted? hSecond)).1).mp hEnd
    exact hApart _ _ rfl (.single (Or.inl hHeld))

/-- A truck is loaded into itself where it is, and afterwards it is in itself. -/
theorem truck_loads_itself :
    let p : Problem := ⟨"p", "logistics", [⟨"t", "truck"⟩, ⟨"a", "location"⟩], [⟨"at", ["t", "a"]⟩], [], []⟩
    let load : DomainAction := .logistics (.load ⟨"t"⟩ ⟨"t"⟩ ⟨"a"⟩)
    let timed : TimedAction Float := ⟨0, 0, "load-truck", [⟨"t"⟩, ⟨"t"⟩, ⟨"a"⟩], 1⟩
    ∃ w table start, World.ofProblem p = .ok w ∧
      (ActionTable.logistics (.ofConfig .default .classical)).prepare w = .ok (table, start) ∧ start.Acyclic ∧
      let first : Simulation Float := ⟨table, start⟩
      let next := first.perform (.dispatch load timed 0)
      first.Dispatches load next ∧ next.world.HeldBy ⟨"t"⟩ ⟨"t"⟩ ∧ ¬ next.world.Acyclic := by
  intro p load timed
  have hRun : (ofProblem? p (.logistics (.ofConfig .default .classical))).any (fun begun => decide (
      (∀ r ∈ begun.2.world.relations, r.kind ≠ .isIn ∧ r.kind ≠ .carries) ∧
      begun.2.accepted? (.dispatch load timed 0) = some load ∧
      (begun.2.perform (.dispatch load timed 0)).world.holds ⟨.isIn, ⟨"t"⟩, ⟨"t"⟩⟩ = true)) = true := by
    decide
  obtain ⟨w, table, start, hWorld, hPrepare, hFacts⟩ := exists_of_ofProblem? hRun
  obtain ⟨hKinds, hAccepted, hIn⟩ := of_decide_eq_true hFacts
  have hBegin : start.Acyclic := World.acyclic_of_not_heldBy (World.not_heldBy_of_kinds hKinds)
  refine ⟨w, table, start, hWorld, hPrepare, hBegin, dispatches_of_accepted? hAccepted, Or.inl hIn, ?_⟩
  intro hEnd
  exact hEnd ⟨"t"⟩ (.single (Or.inl hIn))

end Simulation

end PlanReplay

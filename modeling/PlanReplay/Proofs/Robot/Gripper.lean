import PlanReplay.Proofs.Robot.Run
import PlanReplay.Proofs.World.FullCheck
import PlanReplay.Proofs.World.Initial

/-!
# Grippers

That the gripper of a robot is free is a fact, and what the robot carries are relations. Taking up a ball retracts the
fact and adds a relation, putting it down asserts the fact and removes the relation; together they count the hands of
a robot. Only taking up asks for the fact. What keeps a ball that is put down from freeing a gripper that is free
already is that no robot has more than one hand, and so the count is kept only together with its bound.

* `World.hands` — the hands of a robot.
* `Robot.Table.hands_of_effects` — an accepted action keeps the hands of everyone.
* `Simulation.run_hands` — the hands along a run.
-/

namespace PlanReplay

variable {α : Type}

/-- The hands of a robot that are known of: the one that is free, and one for each thing that it carries. -/
def World.hands (w : World α) (robot : EntityId) : Nat :=
  (if w.hasFact ⟨Robot.free, [robot]⟩ then 1 else 0) + (w.related .carries robot).length

-- ---------------------------------------------------------------------------
-- Accepted actions
-- ---------------------------------------------------------------------------

namespace Robot.Table

variable [Scalar α] {t : Table α} {w next : World α} {clock : α} {action : Action} {effects : List (Effect α)}

/-- What an accepted action changes besides where its subject is, the gripper only where it handles a ball. -/
def handScope (action : Action) : Scope :=
  ⟨some action.robot, if action.handles then [⟨free, [action.robot]⟩] else []⟩

theorem hand_shift_of_effects (hEffects : t.effects w clock action = .ok effects) :
    Shift (handScope action) action.subject effects (t.landing? w action) :=
  shift_of_effects rfl (fun hHandles => by simp [handScope, hHandles]) hEffects

/-- An accepted action takes its subject from the robot that carries it, or gives it to the robot that takes it up; all
others carry what they carried. -/
theorem carried_of_effects (hSound : w.Sound) (hEffects : t.effects w clock action = .ok effects)
    (hApply : w.applyEffects effects = .ok next) (robot : EntityId) :
    (next.related .carries robot).length + (if action.origin? = some (.carriedBy robot) then 1 else 0) =
      (w.related .carries robot).length + (if t.landing? w action = some (.carriedBy robot) then 1 else 0) := by
  have hShift := hand_shift_of_effects hEffects
  have hNext : next.Sound := World.applyEffects_sound hSound hApply
  obtain ⟨-, staged, hStaged, -, rfl⟩ := World.applyEffects_eq_ok_iff.mp hApply
  cases hLanding : t.landing? w action with
  | none =>
    -- only a travel and charging leave their subject where it is
    have hOrigin : action.origin? ≠ some (.carriedBy robot) := by
      cases action <;> simp_all [landing?, Action.origin?]
    rw [hLanding] at hShift
    simp [World.related, State.related, hShift.stays hStaged, hOrigin]
  | some new =>
    obtain ⟨old, hOld⟩ : ∃ old, action.origin? = some old := by
      cases action <;> simp_all [landing?, Action.origin?]
    rw [hLanding] at hShift
    obtain ⟨hLanded, hFrame⟩ := hShift.lands hStaged
    rw [hOld]
    have hPlaced := of_decide_eq_true (holds_origin hEffects hOld)
    simpa [State.occupants, World.related] using
      State.length_occupants_of_moved hSound.state hNext.state hFrame hPlaced hLanded (.carriedBy robot)

/-- An accepted action leaves alone the grippers of all robots but its own, and its own unless it handles a ball. -/
theorem hasFact_free_of_other (hEffects : t.effects w clock action = .ok effects)
    (hApply : w.applyEffects effects = .ok next) {robot : EntityId}
    (hOther : action.handles = true → action.robot ≠ robot) :
    next.hasFact ⟨free, [robot]⟩ = w.hasFact ⟨free, [robot]⟩ := by
  obtain ⟨-, staged, hStaged, -, rfl⟩ := World.applyEffects_eq_ok_iff.mp hApply
  have hFacts := ((hand_shift_of_effects hEffects).frame hStaged).facts ⟨free, [robot]⟩ ?_
  · simp only [World.hasFact, hFacts]
  · unfold handScope
    split
    · rename_i hHandles
      simpa using Ne.symm (hOther hHandles)
    · exact List.not_mem_nil

/-- Where grippers count, whoever has taken up a ball has no free gripper. -/
theorem hasFact_free_of_pick {ball room robot : EntityId} (hGripper : t.usesGripper = true)
    (hEffects : t.pick w ball room robot = .ok effects) (hApply : w.applyEffects effects = .ok next) :
    next.hasFact ⟨free, [robot]⟩ = false := by
  obtain ⟨-, -, -, rfl⟩ := pick_eq_ok hEffects
  obtain ⟨-, staged, hStaged, -, rfl⟩ := World.applyEffects_eq_ok_iff.mp hApply
  rw [handEffects, if_pos hGripper] at hStaged
  obtain ⟨middle, -, hRetract⟩ := State.apply_of_applyAll_concat hStaged
  simp only [State.apply] at hRetract
  split at hRetract
  · cases hRetract
    simp [World.hasFact]
  · cases hRetract

/-- Where grippers count, whoever has put down a ball has a free gripper. -/
theorem hasFact_free_of_drop {ball room robot : EntityId} (hGripper : t.usesGripper = true)
    (hEffects : t.drop w ball room robot = .ok effects) (hApply : w.applyEffects effects = .ok next) :
    next.hasFact ⟨free, [robot]⟩ = true := by
  obtain ⟨-, -, rfl⟩ := drop_eq_ok hEffects
  obtain ⟨-, staged, hStaged, -, rfl⟩ := World.applyEffects_eq_ok_iff.mp hApply
  rw [handEffects, if_pos hGripper] at hStaged
  obtain ⟨middle, -, hAssert⟩ := State.apply_of_applyAll_concat hStaged
  cases hAssert
  simp [World.hasFact]

/-- Where grippers count and nobody has more than one hand, an accepted action keeps the hands of everyone. -/
theorem hands_of_effects (hGripper : t.usesGripper = true) (hSound : w.Sound) (hHands : ∀ robot, w.hands robot ≤ 1)
    (hEffects : t.effects w clock action = .ok effects) (hApply : w.applyEffects effects = .ok next)
    (robot : EntityId) : next.hands robot = w.hands robot := by
  have hCarried := carried_of_effects hSound hEffects hApply robot
  have hBound := hHands robot
  unfold World.hands at hBound ⊢
  by_cases hActor : action.handles = true ∧ action.robot = robot
  · obtain ⟨hHandles, rfl⟩ := hActor
    cases action with
    | pick ball room robot =>
      have hBefore : w.hasFact ⟨free, [robot]⟩ = true := (pick_eq_ok hEffects).2.2.1 hGripper
      have hAfter : next.hasFact ⟨free, [robot]⟩ = false := hasFact_free_of_pick hGripper hEffects hApply
      have hTaken : (next.related .carries robot).length = (w.related .carries robot).length + 1 := by
        simpa [Action.origin?, landing?, Action.robot] using hCarried
      simp [Action.robot, hBefore, hAfter, hTaken, Nat.add_comm]
    | drop ball room robot =>
      have hLaid : (next.related .carries robot).length + 1 = (w.related .carries robot).length := by
        simpa [Action.origin?, landing?, Action.robot] using hCarried
      have hAfter : next.hasFact ⟨free, [robot]⟩ = true := hasFact_free_of_drop hGripper hEffects hApply
      -- the one hand of the robot has been full
      have hBefore : ¬ w.hasFact ⟨free, [robot]⟩ = true := by
        intro hFree
        rw [Action.robot, if_pos hFree] at hBound
        omega
      rw [Action.robot, if_pos hAfter, if_neg hBefore]
      omega
    | move | travel | startCharge | stopCharge => cases hHandles
  · have hOrigin : action.origin? ≠ some (.carriedBy robot) := by
      cases action <;> simp_all [Action.origin?, Action.handles, Action.robot]
    have hLanding : t.landing? w action ≠ some (.carriedBy robot) := by
      cases action <;> simp_all [landing?, Action.handles, Action.robot]
    rw [if_neg hOrigin, if_neg hLanding] at hCarried
    rw [hasFact_free_of_other hEffects hApply fun hHandles hSame => hActor ⟨hHandles, hSame⟩]
    exact congrArg _ hCarried

end Robot.Table

/-- Where grippers count and the hands are as in a world where nobody has more than one, a step keeps them so. -/
theorem Robot.hands_of_step [Scalar α] {w : World α} (hOne : ∀ robot, w.hands robot ≤ 1) {t next : Table α}
    {before after : World α} {event : Event}
    (h : t.usesGripper = true ∧ before.Sound ∧ ∀ robot, before.hands robot = w.hands robot)
    (hStep : Step t before event next after) :
    next.usesGripper = true ∧ after.Sound ∧ ∀ robot, after.hands robot = w.hands robot := by
  obtain ⟨hGripper, hSound, hSame⟩ := h
  refine ⟨hStep.table_eq ▸ hGripper, hStep.sound hSound, ?_⟩
  intro robot
  rw [← hSame robot]
  cases hStep with
  | rest | finish | settle => rfl
  | act hEffects hApply =>
    have hBound : ∀ other, before.hands other ≤ 1 := fun other => hSame other ▸ hOne other
    exact Table.hands_of_effects hGripper hSound hBound hEffects hApply robot

-- ---------------------------------------------------------------------------
-- Initial worlds
-- ---------------------------------------------------------------------------

namespace World

/-- Nobody who is not declared has hands. -/
theorem hands_of_undeclared {w : World α} (h : w.Declared) {robot : EntityId} (hUnknown : ¬ w.contains robot = true) :
    w.hands robot = 0 := by
  have hFree : ¬ w.hasFact ⟨Robot.free, [robot]⟩ = true :=
    fun hFact => hUnknown (h.facts _ (of_decide_eq_true hFact) robot (List.mem_singleton_self robot))
  have hCarried : w.related .carries robot = [] := by
    refine List.eq_nil_iff_forall_not_mem.mpr ?_
    intro ball hBall
    exact hUnknown (h.relations _ (State.mem_related_iff.mp hBall)).1
  rw [hands, if_neg hFree, hCarried]
  rfl

/-- A problem that declares a free gripper has an initial world in which there is one. -/
theorem hasFactsNamed_free_ofProblem {p : Problem} {w : World Float} (h : ofProblem p = .ok w)
    (hFree : ∃ atom ∈ p.predicates, Text.lower atom.name = Robot.free) : w.hasFactsNamed Robot.free = true := by
  obtain ⟨atom, hAtom, hName⟩ := hFree
  have hNoRelation : atom.relation? = none := by
    unfold Atom.relation?
    rw [hName]
    split <;> rfl
  have hFact := (hasFact_ofProblem_iff h).mpr (Problem.mem_facts.mpr ⟨atom, hAtom, hNoRelation, rfl⟩)
  exact List.any_eq_true.mpr ⟨atom.fact, of_decide_eq_true hFact, decide_eq_true hName⟩

end World

-- ---------------------------------------------------------------------------
-- Runs
-- ---------------------------------------------------------------------------

namespace Simulation

open Robot

/--
**Gripper invariant.** Take a problem that declares a free gripper, and in whose initial world every entity has at
most one hand: it is free, or carries one thing, or neither. After any calls on a table of robots that was prepared for
this world, every entity has as many hands as at first. So nobody ever carries two things, and whoever is free carries
nothing.
-/
theorem run_hands {p : Problem} {w : World Float} (hWorld : World.ofProblem p = .ok w)
    (hFree : ∃ atom ∈ p.predicates, Text.lower atom.name = free)
    (hHands : ∀ entity, w.contains entity = true → w.hands entity ≤ 1) {t : Robot.Table Float}
    {table : ActionTable Float} {start : World Float}
    (hPrepare : (ActionTable.robot t).prepare w = .ok (table, start)) (calls : List (SimulationCall Float))
    (entity : EntityId) :
    let last := ((Simulation.mk table start).run calls).world
    last.hands entity = w.hands entity ∧ last.hands entity ≤ 1 ∧ (last.related .carries entity).length ≤ 1 ∧
      (last.hasFact ⟨free, [entity]⟩ = true → last.related .carries entity = []) := by
  intro last
  have hSound : w.Sound := World.ofProblem_sound hWorld
  have hOne : ∀ robot, w.hands robot ≤ 1 := by
    intro robot
    by_cases hKnown : w.contains robot = true
    · exact hHands robot hKnown
    · rw [World.hands_of_undeclared hSound.declared hKnown]
      exact Nat.zero_le 1
  obtain ⟨hTable, hFit⟩ := fit_of_prepare hSound hPrepare
  have hFirst : ∀ robot, start.hands robot = w.hands robot := by
    obtain ⟨hRelations, hFacts⟩ := ActionTable.rest_of_prepare_robot hPrepare
    simp [World.hands, World.hasFact, World.related, State.related, hRelations, hFacts]
  have hLast : ∀ robot, last.hands robot = w.hands robot := by
    obtain ⟨-, -, -, -, hSame⟩ := run_robot (s := ⟨table, start⟩)
      (motive := fun t after => t.usesGripper = true ∧ after.Sound ∧ ∀ robot, after.hands robot = w.hands robot)
      (fun _ => True) (fun h _ hStep => hands_of_step hOne h hStep) calls hTable
      ⟨World.hasFactsNamed_free_ofProblem hWorld hFree, hFit.sound, hFirst⟩ (fun _ _ => trivial)
    exact hSame
  have hBound : last.hands entity ≤ 1 := hLast entity ▸ hOne entity
  refine ⟨hLast entity, hBound, Nat.le_trans (Nat.le_add_left _ _) hBound, ?_⟩
  intro hFact
  rw [World.hands, if_pos hFact] at hBound
  exact List.length_eq_zero_iff.mp (by omega)

/-- Two robots that hand over a ball: one has a free gripper, the other one carries a ball at first. -/
theorem run_hands_of_handover :
    let p : Problem := ⟨"sweep", "robot", [⟨"r", "robot"⟩, ⟨"s", "robot"⟩, ⟨"x", "ball"⟩, ⟨"y", "ball"⟩, ⟨"a", "room"⟩],
      [⟨"at-robby", ["r", "a"]⟩, ⟨"at-robby", ["s", "a"]⟩, ⟨"free", ["r"]⟩, ⟨"at", ["x", "a"]⟩,
        ⟨"carries", ["s", "y"]⟩], [], []⟩
    let t : Robot.Table Float := .ofConfig .default
    let call (name : String) (action : Robot.Action) : SimulationCall Float :=
      .dispatch (.robot action) ⟨0, 0, name, action.referenced, 1⟩ 0
    let calls := [call "pick" (.pick ⟨"x"⟩ ⟨"a"⟩ ⟨"s"⟩), call "pick" (.pick ⟨"x"⟩ ⟨"a"⟩ ⟨"r"⟩),
      call "drop" (.drop ⟨"y"⟩ ⟨"a"⟩ ⟨"s"⟩), call "pick" (.pick ⟨"y"⟩ ⟨"a"⟩ ⟨"r"⟩),
      call "drop" (.drop ⟨"x"⟩ ⟨"a"⟩ ⟨"r"⟩), call "pick" (.pick ⟨"x"⟩ ⟨"a"⟩ ⟨"s"⟩)]
    ∃ w table start, World.ofProblem p = .ok w ∧ (ActionTable.robot t).prepare w = .ok (table, start) ∧
      let first : Simulation Float := ⟨table, start⟩
      let last := (first.run calls).world
      first.accepted calls = [.robot (.pick ⟨"x"⟩ ⟨"a"⟩ ⟨"r"⟩), .robot (.drop ⟨"y"⟩ ⟨"a"⟩ ⟨"s"⟩),
          .robot (.drop ⟨"x"⟩ ⟨"a"⟩ ⟨"r"⟩), .robot (.pick ⟨"x"⟩ ⟨"a"⟩ ⟨"s"⟩)] ∧
        last.related .carries ⟨"s"⟩ = [⟨"x"⟩] ∧ last.hasFact ⟨free, [⟨"r"⟩]⟩ = true ∧
        ∀ entity, last.hands entity = w.hands entity ∧ last.hands entity ≤ 1 ∧
          (last.related .carries entity).length ≤ 1 ∧
          (last.hasFact ⟨free, [entity]⟩ = true → last.related .carries entity = []) := by
  intro p t call calls
  have hRun : (ofProblem? p (.robot t)).any (fun begun => decide (
      (∀ entity ∈ begun.1.entities.keys, begun.1.hands entity ≤ 1) ∧
      begun.2.accepted calls = [.robot (.pick ⟨"x"⟩ ⟨"a"⟩ ⟨"r"⟩), .robot (.drop ⟨"y"⟩ ⟨"a"⟩ ⟨"s"⟩),
        .robot (.drop ⟨"x"⟩ ⟨"a"⟩ ⟨"r"⟩), .robot (.pick ⟨"x"⟩ ⟨"a"⟩ ⟨"s"⟩)] ∧
      (begun.2.run calls).world.related .carries ⟨"s"⟩ = [⟨"x"⟩] ∧
      (begun.2.run calls).world.hasFact ⟨free, [⟨"r"⟩]⟩ = true)) = true := by
    decide
  obtain ⟨w, table, start, hWorld, hPrepare, hFacts⟩ := exists_of_ofProblem? hRun
  obtain ⟨hKeys, hAccepted, hCarried, hFreed⟩ := of_decide_eq_true hFacts
  have hFree : ∃ atom ∈ p.predicates, Text.lower atom.name = free := by decide
  have hHands : ∀ entity, w.contains entity = true → w.hands entity ≤ 1 :=
    fun entity hKnown => hKeys entity (World.mem_keys_iff.mpr hKnown)
  exact ⟨w, table, start, hWorld, hPrepare, hAccepted, hCarried, hFreed, run_hands hWorld hFree hHands hPrepare calls⟩

end Simulation

end PlanReplay

import PlanReplay.Proofs.Domain.Crash
import PlanReplay.Proofs.Domain.Deed

/-!
# Runs of a table and a world

A simulation holds the table of a domain and the world that it acts on. Dispatches change both, and are the only
calls that change the world; a rejected dispatch changes nothing. A dispatch over which the program ends is the last call
of a run.

* `Simulation.perform`, `Simulation.run` — what calls lead to, and `Simulation.accepted` the actions they carry
  out.
* `Simulation.ofProblem?` — where a run of a problem begins.
* `Simulation.perform_cases` — a call leaves the world alone or carries out one action.
* `Simulation.run_induction`, `Simulation.run_accounts` — what every call keeps, a run keeps; and so does what is said of
  the simulation and of the actions that were carried out so far.
* `Simulation.run_sound` — the invariant of worlds along a run.
* `Simulation.exists_last_accepted` — the last call of a run that carries out an action of a sort.
-/

namespace PlanReplay

variable {α : Type}

/-- The table and the world of a run. -/
structure Simulation (α : Type) where
  table : ActionTable α
  world : World α

/-- The calls that change a simulation. -/
inductive SimulationCall (α : Type) where
  | dispatch (action : DomainAction) (timed : TimedAction α) (clock : α)
  | finish (action : DomainAction)
  | settle

namespace Simulation

variable [Scalar α]

/-- Where the program ends in a call. -/
def crash? (s : Simulation α) : SimulationCall α → Option Crash
  | .dispatch action timed clock =>
    match s.table.dispatch action timed s.world clock with
    | .error (.crashed crash) => some crash
    | .error (.refused _) | .ok _ => none
  | .finish _ | .settle => none

/-- The simulation after a call. One in which the program ends leaves it as it is. -/
def perform (s : Simulation α) : SimulationCall α → Simulation α
  | .dispatch action timed clock =>
    match s.table.dispatch action timed s.world clock with
    | .ok (table, world, _) => ⟨table, world⟩
    | .error _ => s
  | .finish action => ⟨(s.table.finish action).1, s.world⟩
  | .settle => ⟨s.table.settle.1, s.world⟩

/-- The action that a call carries out. -/
def accepted? (s : Simulation α) : SimulationCall α → Option DomainAction
  | .dispatch action timed clock =>
    match s.table.dispatch action timed s.world clock with
    | .ok _ => some action
    | .error _ => none
  | .finish _ | .settle => none

/-- What a call that carries out an action reports. -/
def reported? (s : Simulation α) : SimulationCall α → Option (Applied α)
  | .dispatch action timed clock =>
    match s.table.dispatch action timed s.world clock with
    | .ok (_, _, applied) => some applied
    | .error _ => none
  | .finish _ | .settle => none

/-- The simulation after a sequence of calls, or where the program ends in one of them. -/
def run (s : Simulation α) : List (SimulationCall α) → Simulation α
  | [] => s
  | call :: rest =>
    match s.crash? call with
    | none => (s.perform call).run rest
    | some _ => s

/-- The actions that a sequence of calls carries out, in order. -/
def accepted (s : Simulation α) : List (SimulationCall α) → List DomainAction
  | [] => []
  | call :: rest =>
    match s.crash? call with
    | none => (s.accepted? call).toList ++ (s.perform call).accepted rest
    | some _ => []

variable {s : Simulation α} {call : SimulationCall α}

theorem run_cons (h : s.crash? call = none) (rest : List (SimulationCall α)) :
    s.run (call :: rest) = (s.perform call).run rest := by
  rw [run, h]

theorem accepted_cons (h : s.crash? call = none) (rest : List (SimulationCall α)) :
    s.accepted (call :: rest) = (s.accepted? call).toList ++ (s.perform call).accepted rest := by
  rw [accepted, h]

/-- Nothing is done after the program has ended. -/
theorem run_of_crash {crash : Crash} (h : s.crash? call = some crash) (rest : List (SimulationCall α)) :
    s.run (call :: rest) = s ∧ s.accepted (call :: rest) = [] := by
  rw [run, accepted, h]
  exact ⟨rfl, rfl⟩

/-- What is read off a call that carries out an action is read off the action. -/
theorem filterMap_toList_accepted? {β : Type} (f : DomainAction → Option β) (s : Simulation α)
    (call : SimulationCall α) : (s.accepted? call).toList.filterMap f = ((s.accepted? call).bind f).toList := by
  cases s.accepted? call with
  | none => rfl
  | some action => cases hEntry : f action <;> simp [hEntry]

/-- The world of a problem, and the simulation that begins with a table that is prepared for it. -/
def ofProblem? (p : Problem) (t : ActionTable Float) : Option (World Float × Simulation Float) :=
  match World.ofProblem p with
  | .error _ => none
  | .ok w =>
    match t.prepare w with
    | .error _ => none
    | .ok (table, start) => some (w, ⟨table, start⟩)

/-- Where a check of both succeeds, there are both. -/
theorem exists_of_ofProblem? {p : Problem} {t : ActionTable Float} {check : World Float × Simulation Float → Bool}
    (h : (ofProblem? p t).any check = true) :
    ∃ w table start, World.ofProblem p = .ok w ∧ t.prepare w = .ok (table, start) ∧
      check (w, ⟨table, start⟩) = true := by
  unfold ofProblem? at h
  cases hWorld : World.ofProblem p with
  | error violation =>
    rw [hWorld] at h
    cases h
  | ok w =>
    rw [hWorld] at h
    dsimp only at h
    cases hPrepare : t.prepare w with
    | error violation =>
      rw [hPrepare] at h
      cases h
    | ok result =>
      rw [hPrepare] at h
      exact ⟨w, result.1, result.2, rfl, hPrepare, h⟩

-- ---------------------------------------------------------------------------
-- One call
-- ---------------------------------------------------------------------------

/-- A dispatch that is accepted leads from `s` to `next`. -/
def Dispatches (s : Simulation α) (action : DomainAction) (next : Simulation α) : Prop :=
  ∃ timed clock applied, s.table.dispatch action timed s.world clock = .ok (next.table, next.world, applied)

/-- A table to which `t` is brought without the world: it stays, or an action or everything in flight ends. -/
inductive Rests (t : ActionTable α) : ActionTable α → Prop where
  | stay : Rests t t
  | finish (action : DomainAction) : Rests t (t.finish action).1
  | settle : Rests t t.settle.1

omit [Scalar α] in
/-- Only a table of robots keeps anything that ends. -/
theorem Rests.eq_self {t after : ActionTable α} (h : Rests t after) (hDomain : t.domain ≠ .robot) : after = t := by
  cases t with
  | robot table => exact absurd rfl hDomain
  | elevator table | logistics table => cases h <;> rfl

/-- A call leaves the world alone and carries out nothing, or is a dispatch that is accepted. -/
theorem perform_cases (s : Simulation α) (call : SimulationCall α) :
    (s.accepted? call = none ∧ (s.perform call).world = s.world ∧ Rests s.table (s.perform call).table) ∨
      ∃ action, s.accepted? call = some action ∧ s.Dispatches action (s.perform call) := by
  cases call with
  | dispatch action timed clock =>
    unfold accepted? perform
    dsimp only
    cases hDispatch : s.table.dispatch action timed s.world clock with
    | ok result => exact Or.inr ⟨action, rfl, timed, clock, result.2.2, hDispatch⟩
    | error rejection => exact Or.inl ⟨rfl, rfl, .stay⟩
  | finish action => exact Or.inl ⟨rfl, rfl, .finish action⟩
  | settle => exact Or.inl ⟨rfl, rfl, .settle⟩

/-- A dispatch that reports something is accepted. -/
theorem dispatch_of_reported? {s : Simulation α} {action : DomainAction} {timed : TimedAction α} {clock : α}
    {applied : Applied α} (h : s.reported? (.dispatch action timed clock) = some applied) :
    s.table.dispatch action timed s.world clock =
      .ok ((s.perform (.dispatch action timed clock)).table, (s.perform (.dispatch action timed clock)).world,
        applied) := by
  unfold perform
  dsimp only
  unfold reported? at h
  dsimp only at h
  split at h
  · rename_i hDispatch
    cases h
    rw [hDispatch]
  · cases h

/-- A call that carries out an action is a dispatch of it that is accepted. -/
theorem dispatches_of_accepted? {s : Simulation α} {call : SimulationCall α} {action : DomainAction}
    (h : s.accepted? call = some action) : s.Dispatches action (s.perform call) := by
  rcases s.perform_cases call with ⟨hNone, -⟩ | ⟨other, hSome, hDispatch⟩
  · rw [hNone] at h
    cases h
  · obtain rfl : other = action := Option.some.inj (hSome.symm.trans h)
    exact hDispatch

/-- An accepted action changes the world by a batch, if it changes it at all. -/
theorem Dispatches.batch {s next : Simulation α} {action : DomainAction} (h : s.Dispatches action next) :
    next.world = s.world ∨ ∃ effects, s.world.applyEffects effects = .ok next.world := by
  obtain ⟨timed, clock, applied, hDispatch⟩ := h
  rcases ActionTable.deed_of_dispatch hDispatch with ⟨hSame, -⟩ | ⟨effects, hApply, -⟩
  · exact Or.inl hSame
  · exact Or.inr ⟨effects, hApply⟩

theorem Dispatches.sound {s next : Simulation α} {action : DomainAction} (h : s.Dispatches action next)
    (hSound : s.world.Sound) : next.world.Sound := by
  rcases h.batch with hSame | ⟨effects, hApply⟩
  · rw [hSame]
    exact hSound
  · exact World.applyEffects_sound hSound hApply

theorem Dispatches.entities {s next : Simulation α} {action : DomainAction} (h : s.Dispatches action next) :
    next.world.entities = s.world.entities := by
  rcases h.batch with hSame | ⟨effects, hApply⟩
  · rw [hSame]
  · obtain ⟨-, staged, -, -, hNext⟩ := World.applyEffects_eq_ok_iff.mp hApply
    rw [hNext]

/-- An accepted action keeps the relations that place nobody. -/
theorem Dispatches.holds_of_unplaced {s next : Simulation α} {action : DomainAction} (h : s.Dispatches action next)
    {r : Relation} (hNobody : ∀ x, r.places x = false) : next.world.holds r = s.world.holds r := by
  obtain ⟨timed, clock, applied, hDispatch⟩ := h
  rcases ActionTable.deed_of_dispatch hDispatch with ⟨hSame, -⟩ | ⟨effects, hApply, hDeed⟩
  · rw [hSame]
  · obtain ⟨x, landing, -, hShift⟩ := hDeed.shift
    obtain ⟨-, staged, hStaged, -, hNext⟩ := World.applyEffects_eq_ok_iff.mp hApply
    have hKept := (hShift.frame hStaged).relations r (hNobody x)
    rw [hNext]
    simp only [World.holds, hKept]

theorem perform_sound {s : Simulation α} (hSound : s.world.Sound) (call : SimulationCall α) :
    (s.perform call).world.Sound := by
  rcases s.perform_cases call with ⟨-, hSame, -⟩ | ⟨action, -, hDispatch⟩
  · rw [hSame]
    exact hSound
  · exact hDispatch.sound hSound

/-- The program does not end in a call that carries out an action. -/
theorem crash?_of_accepted? {s : Simulation α} {call : SimulationCall α} {action : DomainAction}
    (h : s.accepted? call = some action) : s.crash? call = none := by
  cases call with
  | finish | settle => rfl
  | dispatch action timed clock =>
    unfold accepted? at h
    unfold crash?
    dsimp only at h ⊢
    split at h
    · rename_i hDispatch
      rw [hDispatch]
    · cases h

-- ---------------------------------------------------------------------------
-- Runs
-- ---------------------------------------------------------------------------

/-- What holds at first and is kept by every call holds after a run. -/
theorem run_induction {motive : Simulation α → Prop} {s : Simulation α} (hFirst : motive s)
    (hCall : ∀ s call, motive s → motive (s.perform call)) (calls : List (SimulationCall α)) :
    motive (s.run calls) := by
  induction calls generalizing s with
  | nil => exact hFirst
  | cons call rest ih =>
    cases hCrash : s.crash? call with
    | none =>
      rw [run_cons hCrash]
      exact ih (hCall s call hFirst)
    | some crash =>
      rw [(run_of_crash hCrash rest).1]
      exact hFirst

/-- What holds at first, before anything is carried out, and is kept by every call holds after a run, of everything that
was carried out. -/
theorem run_accounts {motive : List DomainAction → Simulation α → Prop} {s : Simulation α} (hFirst : motive [] s)
    (hCall : ∀ made s call, motive made s → motive (made ++ (s.accepted? call).toList) (s.perform call))
    (calls : List (SimulationCall α)) : motive (s.accepted calls) (s.run calls) := by
  suffices hAfter : ∀ made s, motive made s → motive (made ++ s.accepted calls) (s.run calls) from hAfter [] s hFirst
  clear hFirst
  induction calls with
  | nil =>
    intro made s h
    rw [accepted, List.append_nil]
    exact h
  | cons call rest ih =>
    intro made s h
    cases hCrash : s.crash? call with
    | none =>
      rw [run_cons hCrash, accepted_cons hCrash, ← List.append_assoc]
      exact ih _ _ (hCall made s call h)
    | some crash =>
      obtain ⟨hRun, hNothing⟩ := run_of_crash hCrash rest
      rw [hRun, hNothing, List.append_nil]
      exact h

/-- **Worlds along a run.** A run keeps the invariant of worlds. -/
theorem run_sound {s : Simulation α} (hSound : s.world.Sound) (calls : List (SimulationCall α)) :
    (s.run calls).world.Sound :=
  run_induction (motive := fun s => s.world.Sound) hSound (fun _ call h => perform_sound h call) calls

/-- A run carries out no action of a sort, or there is the last call of it that does. -/
theorem exists_last_accepted (sort : DomainAction → Prop) (calls : List (SimulationCall α)) : ∀ s : Simulation α,
    (∀ action ∈ s.accepted calls, ¬ sort action) ∨
      ∃ before call after action, calls = before ++ call :: after ∧ (s.run before).accepted? call = some action ∧
        sort action ∧ ∀ other ∈ ((s.run before).perform call).accepted after, ¬ sort other := by
  induction calls with
  | nil => exact fun _ => Or.inl nofun
  | cons call rest ih =>
    intro s
    cases hCrash : s.crash? call with
    | some crash =>
      rw [(run_of_crash hCrash rest).2]
      exact Or.inl nofun
    | none =>
      rcases ih (s.perform call) with hNone | ⟨before, last, after, action, rfl, hAction⟩
      · by_cases hHere : ∃ action, s.accepted? call = some action ∧ sort action
        · obtain ⟨action, hAccepted, hSort⟩ := hHere
          exact Or.inr ⟨[], call, rest, action, rfl, hAccepted, hSort, hNone⟩
        · rw [accepted_cons hCrash]
          refine Or.inl (List.forall_mem_append.mpr ⟨?_, hNone⟩)
          intro action hAction hSort
          exact hHere ⟨action, Option.mem_toList.mp hAction, hSort⟩
      · rw [← run_cons hCrash] at hAction
        exact Or.inr ⟨call :: before, last, after, action, rfl, hAction⟩

/-- A run declares nothing. -/
theorem run_entities (s : Simulation α) (calls : List (SimulationCall α)) :
    (s.run calls).world.entities = s.world.entities := by
  refine run_induction (motive := fun last => last.world.entities = s.world.entities) rfl ?_ calls
  intro last call h
  rcases last.perform_cases call with ⟨-, hSame, -⟩ | ⟨action, -, hDispatch⟩
  · rw [hSame]
    exact h
  · exact hDispatch.entities.trans h

/-- A run keeps the relations that place nobody. -/
theorem run_holds_of_unplaced (s : Simulation α) (calls : List (SimulationCall α)) {r : Relation}
    (hNobody : ∀ x, r.places x = false) : (s.run calls).world.holds r = s.world.holds r := by
  refine run_induction (motive := fun last => last.world.holds r = s.world.holds r) rfl ?_ calls
  intro last call h
  rcases last.perform_cases call with ⟨-, hSame, -⟩ | ⟨action, -, hDispatch⟩
  · rw [hSame]
    exact h
  · exact (hDispatch.holds_of_unplaced hNobody).trans h

end Simulation

end PlanReplay

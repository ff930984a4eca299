import PlanReplay.Proofs.World.FullCheck

/-!
# Batches in pieces

The effects of a batch can be handed to a world at once, or cut into pieces that are applied one after the other. The
one batch is checked once, about everything that it touches; each piece is checked about less, in a world in between.
Where a beginning of the batch is accepted on its own, the world in between keeps the rules, and so the check of what
the rest touches finds what a check of all touched entities finds.

* `State.applyAll_append_of_ok` — effects are staged one after the other, wherever they are cut.
* `World.applyEffects_append` — after a beginning that is accepted, the rest decides: the same world, or the same
  violation.
* `World.applyPieces`, `World.applyEffects_of_pieces` — pieces that are accepted one after the other are accepted at
  once, and lead to the same world.
-/

namespace PlanReplay

variable {α : Type} [Scalar α]

-- ---------------------------------------------------------------------------
-- Two pieces
-- ---------------------------------------------------------------------------

/-- Staging goes on with the rest of the effects from where their beginning leads. -/
theorem State.applyAll_append_of_ok {first : List (Effect α)} (second : List (Effect α)) : ∀ {s middle : State α},
    s.applyAll first = .ok middle → s.applyAll (first ++ second) = middle.applyAll second := by
  induction first with
  | nil =>
    intro s middle h
    cases h
    rfl
  | cons effect rest ih =>
    intro s middle h
    obtain ⟨next, hEffect, hRest⟩ := State.applyAll_cons h
    rw [List.cons_append, State.applyAll, hEffect]
    exact ih hRest

namespace World

omit [Scalar α] in
theorem touchedBy_append (first second : List (Effect α)) :
    touchedBy (first ++ second) = touchedBy first ++ touchedBy second :=
  List.flatMap_append

/-- The check after a batch about declared entities of a sound world finds what a check of all of them finds. -/
theorem violation?_eq_full {w : World α} {effects : List (Effect α)} {staged : State α} (hSound : w.Sound)
    (hDeclared : ∀ id ∈ touchedBy effects, w.contains id = true) (hStaged : w.state.applyAll effects = .ok staged) :
    staged.violation? (OrderedSet.ofList (touchedBy effects)).toList = staged.violation? w.entities.keys := by
  have hTouched : ∀ id ∈ touchedBy effects, id ∈ (OrderedSet.ofList (touchedBy effects)).toList :=
    fun id hid => OrderedSet.mem_toList.mpr (OrderedSet.mem_ofList.mpr hid)
  have hFunctional := State.applyAll_functional (w.state.functional_iff.mpr hSound.state.functional) hStaged
  refine hSound.state.violation?_eq ((State.applyAll_growsWithin hStaged).mono hTouched) hFunctional w.keys_ascending ?_
  exact fun id hid => mem_keys_iff.mpr (hDeclared id (OrderedSet.mem_ofList.mp hid))

/-- **A batch that is cut in two.** If the beginning of a batch is accepted on its own, the outcome of the whole batch is
the outcome of the rest on the world that the beginning leads to, also where the rest is refused. -/
theorem applyEffects_append {w middle : World α} {first second : List (Effect α)} (hSound : w.Sound)
    (hFirst : w.applyEffects first = .ok middle) :
    w.applyEffects (first ++ second) = middle.applyEffects second := by
  have hMiddle := applyEffects_sound hSound hFirst
  obtain ⟨hKnown, state, hStaged, -, rfl⟩ := applyEffects_eq_ok_iff.mp hFirst
  have hStagedBoth := State.applyAll_append_of_ok second hStaged
  -- the beginning names no unknown entity, so both look for one in the rest
  have hUnknown : ((touchedBy (first ++ second)).find? fun id => !w.contains id) =
      (touchedBy second).find? fun id => !({ w with state := state } : World α).contains id := by
    rw [touchedBy_append, List.find?_append, Option.or_eq_right_of_none]
    · rfl
    · rw [List.find?_eq_none]
      intro id hid
      rw [hKnown id hid]
      decide
  unfold applyEffects
  rw [hUnknown, hStagedBoth]
  cases hFound : (touchedBy second).find? fun id => !({ w with state := state } : World α).contains id with
  | some id => rfl
  | none =>
    cases hRest : state.applyAll second with
    | error violation => rfl
    | ok staged =>
      -- one check is about what both pieces touch, the other about what the second does; all is what both stand for
      have hSecond : ∀ id ∈ touchedBy second, ({ w with state := state } : World α).contains id = true := by
        simpa using hFound
      have hBoth : ∀ id ∈ touchedBy (first ++ second), w.contains id = true := by
        rw [touchedBy_append]
        exact List.forall_mem_append.mpr ⟨hKnown, hSecond⟩
      have hWhole := violation?_eq_full hSound hBoth (hStagedBoth.trans hRest)
      have hPiece := violation?_eq_full hMiddle hSecond hRest
      dsimp only
      rw [hWhole, ← hPiece]

-- ---------------------------------------------------------------------------
-- Any number of pieces
-- ---------------------------------------------------------------------------

/-- The world after pieces of a batch, one after the other, or why the first piece that is refused is refused. -/
def applyPieces : World α → List (List (Effect α)) → Except (Violation α) (World α)
  | w, [] => .ok w
  | w, piece :: rest =>
    match w.applyEffects piece with
    | .ok next => next.applyPieces rest
    | .error violation => .error violation

/-- A batch without effects is accepted and changes nothing. -/
theorem applyEffects_nil {w : World α} (hSound : w.Sound) : w.applyEffects [] = .ok w :=
  applyEffects_of_sound nofun rfl hSound.state

/-- Pieces that are accepted one after the other are accepted at once: by induction on the pieces. -/
theorem applyEffects_flatten {pieces : List (List (Effect α))} : ∀ {w next : World α}, w.Sound →
    w.applyPieces pieces = .ok next → w.applyEffects pieces.flatten = .ok next := by
  induction pieces with
  | nil =>
    intro w next hSound h
    cases h
    exact applyEffects_nil hSound
  | cons piece rest ih =>
    intro w next hSound h
    rw [applyPieces] at h
    split at h
    · rename_i middle hPiece
      rw [List.flatten_cons, applyEffects_append hSound hPiece]
      exact ih (applyEffects_sound hSound hPiece) h
    · cases h

/--
**Pieces agree with the whole.** Cut a list of effects into consecutive pieces in any way. If a reachable world accepts
the pieces one after the other, then it accepts the whole list in one call, and both lead to the same world.
-/
theorem applyEffects_of_pieces {w next : World Float} (h : w.Reachable) {effects : List (Effect Float)}
    {pieces : List (List (Effect Float))} (hCut : pieces.flatten = effects)
    (hPieces : w.applyPieces pieces = .ok next) : w.applyEffects effects = .ok next := by
  rw [← hCut]
  exact applyEffects_flatten h.sound hPieces

/-- Somebody gets into an elevator, and is counted. The relations change in one piece, which passes through a state in
which the person is in two places; the count is another piece. Cut before that state is left, the first piece is
refused, and still the whole is accepted. -/
theorem applyEffects_of_pieces_of_boarding :
    let calls : List (WorldCall Float) :=
      [.declare ⟨"lift"⟩ .elevator, .declare ⟨"ann"⟩ .person, .declare ⟨"f1"⟩ .floor,
        .applyEffects [.relate ⟨.isAt, ⟨"ann"⟩, ⟨"f1"⟩⟩, .setLevel ⟨"lift"⟩ .capacity 1,
          .setLevel ⟨"lift"⟩ .passengers 0]]
    let w := calls.foldl (fun w call => (w.perform call).1) empty
    let enter : Effect Float := .relate ⟨.isIn, ⟨"ann"⟩, ⟨"lift"⟩⟩
    let leave : Effect Float := .unrelate ⟨.isAt, ⟨"ann"⟩, ⟨"f1"⟩⟩
    let count : Effect Float := .adjust ⟨"lift"⟩ .passengers 1
    w.Reachable ∧ w.applyPieces [[enter], [leave, count]] = .error (.multiplePlacements ⟨"ann"⟩ 2) ∧
      ∃ next, w.applyPieces [[enter, leave], [], [count]] = .ok next ∧
        w.applyEffects [enter, leave, count] = .ok next ∧ next.relations = [⟨.isIn, ⟨"ann"⟩, ⟨"lift"⟩⟩] ∧
        next.level? ⟨"lift"⟩ .passengers = some 1 := by
  intro calls w enter leave count
  have hReachable : w.Reachable := .perform (.perform (.perform (.perform .empty _) _) _) _
  refine ⟨hReachable, by decide, ?_⟩
  obtain ⟨next, hPieces⟩ : ∃ next, w.applyPieces [[enter, leave], [], [count]] = .ok next := ⟨_, rfl⟩
  have hCut : [[enter, leave], [], [count]].flatten = [enter, leave, count] := rfl
  have hWhole := applyEffects_of_pieces hReachable hCut hPieces
  have hSeen : (w.applyPieces [[enter, leave], [], [count]]).toOption.map
      (fun last => (last.relations, last.level? ⟨"lift"⟩ .passengers)) =
      some ([⟨.isIn, ⟨"ann"⟩, ⟨"lift"⟩⟩], some 1) := by decide
  rw [hPieces] at hSeen
  obtain ⟨hRelations, hLevel⟩ := Prod.mk.inj (Option.some.inj hSeen)
  exact ⟨next, hPieces, hWhole, hRelations, hLevel⟩

end World

end PlanReplay

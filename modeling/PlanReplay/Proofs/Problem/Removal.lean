import PlanReplay.Proofs.World.Agreement

/-!
# What a removal leaves

The operations that compose a problem take names as they are spelled, but for the blanks around them. The problem file and
the world take them without their case. So an entry that was declared in another spelling outlives the removal of its
names, and an object that is declared in another spelling is added a second time. Nothing else does.

* `Atom.SameNames`, `Atom.SameMeaning` — atoms that the problem file and the world take for one.
* `Atom.RespelledIn` — an atom is declared in another spelling.
* `Problem.mem_addNumberedObjects` — the names that are reported as added.
* `Problem.left_of_removal` — what is left of what was removed, and what is added again.
* `Problem.left_of_removal_in_capitals` — names in capitals that stay.
-/

namespace PlanReplay

open Text

-- ---------------------------------------------------------------------------
-- Atoms in several spellings
-- ---------------------------------------------------------------------------

namespace Atom

/-- Two atoms have the same names but for their case. -/
def SameNames (a b : Atom) : Prop := Problem.identityKey a.name a.args = Problem.identityKey b.name b.args

instance (a b : Atom) : Decidable (a.SameNames b) := inferInstanceAs (Decidable (_ = _))

/-- Two atoms stand for one relation, or for one fact. -/
def SameMeaning (a b : Atom) : Prop := a.relation? = b.relation? ∧ (b.relation? = none → a.fact = b.fact)

/-- Some of the atoms has the same names but for their case, and not the same spelling. -/
def RespelledIn (target : Atom) (atoms : List Atom) : Prop := ∃ a ∈ atoms, a.SameNames target ∧ a ≠ target

instance (target : Atom) (atoms : List Atom) : Decidable (target.RespelledIn atoms) :=
  inferInstanceAs (Decidable (∃ a ∈ atoms, _ ∧ _))

theorem expression_injective {a b : Atom} (h : a.expression = b.expression) : a = b := by
  obtain ⟨hName, hArgs⟩ := List.cons.inj (Expression.list.inj h)
  obtain ⟨name, args⟩ := a
  obtain ⟨name', args'⟩ := b
  obtain rfl : name = name' := Expression.atom.inj hName
  have hInjective : Function.Injective Expression.atom := fun _ _ h => Expression.atom.inj h
  obtain rfl : args = args' := List.map_injective_iff.mpr hInjective hArgs
  rfl

/-- No atom reads like an assignment. -/
theorem expression_ne (a : Atom) (f : Assignment) : a.expression ≠ f.expression := by
  intro h
  obtain ⟨-, hArgs⟩ := List.cons.inj (Expression.list.inj h)
  cases hNames : a.args with
  | nil =>
    rw [hNames] at hArgs
    cases hArgs
  | cons name rest =>
    rw [hNames] at hArgs
    cases hArgs

end Atom

section

variable {α κ : Type} [DecidableEq κ] {key : α → κ}

/-- A key is listed iff some entry has it. -/
theorem exists_mem_distinctBy_iff {list : List α} {k : κ} :
    (∃ a ∈ distinctBy key list, key a = k) ↔ ∃ a ∈ list, key a = k := by
  constructor
  · rintro ⟨a, ha, hKey⟩
    exact ⟨a, mem_of_mem_distinctBy ha, hKey⟩
  · rintro ⟨a, ha, rfl⟩
    exact exists_mem_distinctBy ha

end

/-- The goals of the section `:goal`. -/
def Text.Expression.goalEntries? : Expression → Option (List Expression)
  | .list sections => sections.findSome? fun
    | .list (.atom head :: entries) =>
      if head = ":goal" then
        match entries with
        | [.list (.atom _ :: goals)] => some goals
        | _ => none
      else
        none
    | _ => none
  | .atom _ => none

namespace Problem

/-- Of the atoms that are spelled otherwise than `target`, one with its names is listed iff one was declared. -/
theorem exists_listed_iff (atoms : List Atom) (target : Atom) :
    (∃ a ∈ listedAtoms (atoms.filter (· ≠ target)), a.SameNames target) ↔ target.RespelledIn atoms := by
  have hListed : (∃ a ∈ listedAtoms (atoms.filter (· ≠ target)), a.SameNames target) ↔
      ∃ a ∈ atoms.filter (· ≠ target), a.SameNames target := exists_mem_distinctBy_iff
  rw [hListed]
  simp only [List.mem_filter, decide_eq_true_eq, Atom.RespelledIn, and_assoc, and_comm (a := _ ≠ target)]

-- ---------------------------------------------------------------------------
-- What is read
-- ---------------------------------------------------------------------------

theorem goalEntries?_expression (p : Problem) (variant : DomainVariant) :
    (p.expression variant).goalEntries? = some ((firstAtoms p.goals).map Atom.expression) := by
  simp [expression, Expression.goalEntries?]

/-- An atom is read among the entries of a section iff it is listed there. -/
theorem mem_entries_iff (atoms : List Atom) (functions : List Assignment) (a : Atom) :
    a.expression ∈ (firstAtoms atoms).map Atom.expression ++ functions.map Assignment.expression ↔
      a ∈ listedAtoms atoms := by
  rw [firstAtoms_eq, List.mem_append]
  constructor
  · rintro (hAtom | hFunction)
    · obtain ⟨b, hb, hExpression⟩ := List.mem_map.mp hAtom
      exact Atom.expression_injective hExpression ▸ hb
    · obtain ⟨f, -, hExpression⟩ := List.mem_map.mp hFunction
      exact absurd hExpression.symm (a.expression_ne f)
  · exact fun ha => Or.inl (List.mem_map_of_mem ha)

/-- An object is listed in another case iff it is declared in one. -/
theorem exists_listed_object_iff (p : Problem) (name : String) :
    (∃ group ∈ p.typeGroups, ∃ listed ∈ group.2, lower listed = lower name) ↔
      ∃ object ∈ p.objects, lower object.name = lower name := by
  have hListed : (∃ object ∈ p.listedObjects, lower object.name = lower name) ↔
      ∃ object ∈ p.objects, lower object.name = lower name := exists_mem_distinctBy_iff
  rw [← hListed]
  constructor
  · rintro ⟨⟨typeName, names⟩, hGroup, listed, hName, hLower⟩
    obtain ⟨object, hObject, -, rfl⟩ := mem_typeGroups hGroup hName
    exact ⟨object, hObject, hLower⟩
  · rintro ⟨object, hObject, hLower⟩
    obtain ⟨names, hGroup, hName⟩ := exists_mem_typeGroups hObject
    exact ⟨_, hGroup, _, hName, hLower⟩

-- ---------------------------------------------------------------------------
-- Numbered objects
-- ---------------------------------------------------------------------------

/-- The name of a numbered object. -/
def numberedName (label : String) (index : Nat) : String := lower (trim label) ++ toString (index + 1)

theorem toList_numberedName (label : String) (index : Nat) :
    (numberedName label index).toList = lowerChars (trimChars label.toList) ++ Nat.toDigits 10 (index + 1) := by
  have hDigits : (toString (index + 1)).toList = Nat.toDigits 10 (index + 1) := by
    rw [Nat.toString_eq_ofList_toDigits, String.toList_ofList]
  rw [numberedName, String.toList_append, hDigits]
  simp [lower, trim]

theorem numberedName_injective (label : String) {i j : Nat} (h : numberedName label i = numberedName label j) : i = j := by
  have hText := congrArg String.toList h
  rw [toList_numberedName, toList_numberedName, List.append_cancel_left_eq] at hText
  have hRead := congrArg (fun digits => Nat.ofDigitChars 10 digits 0) hText
  rw [Nat.ofDigitChars_ten_toDigits, Nat.ofDigitChars_ten_toDigits] at hRead
  exact Nat.succ.inj hRead

/-- There are no blanks around the name of a numbered object. -/
theorem trim_numberedName (label : String) (index : Nat) : trim (numberedName label index) = numberedName label index := by
  have hDigit {c : Char} (h : c ∈ Nat.toDigits 10 (index + 1)) : isBlank c = false :=
    isBlank_of_isDigit (Nat.isDigit_of_mem_toDigits (by decide) (by decide) h)
  have hFilled : Nat.toDigits 10 (index + 1) ≠ [] := Nat.toDigits_ne_nil
  rw [trim, trimChars_eq_self, String.ofList_toList]
  · intro c hc
    rw [toList_numberedName, List.head?_append] at hc
    rcases Option.or_eq_some_iff.mp hc with hLabel | ⟨-, hNumber⟩
    · rw [lowerChars, List.head?_map] at hLabel
      obtain ⟨d, hd, rfl⟩ := Option.map_eq_some_iff.mp hLabel
      rw [isBlank_lowerChar]
      exact isBlank_of_head?_trimChars hd
    · exact hDigit (List.mem_of_mem_head? hNumber)
  · intro c hc
    rw [toList_numberedName, List.getLast?_append_of_ne_nil _ hFilled] at hc
    exact hDigit (List.mem_of_mem_getLast? hc)

theorem addNumberedObjects_succ (p : Problem) (label typeName : String) (count : Nat) :
    p.addNumberedObjects label typeName (count + 1) =
      let before := p.addNumberedObjects label typeName count
      if before.1.objects.any fun object => object.name = numberedName label count then before
      else (before.1.addObject (numberedName label count) typeName, before.2 ++ [numberedName label count]) := by
  rw [addNumberedObjects, List.range_succ, List.foldl_append]
  rfl

/-- The objects after numbered ones are added: those before, and those that are reported. -/
theorem objects_addNumberedObjects (p : Problem) (label typeName : String) (count : Nat) :
    (p.addNumberedObjects label typeName count).1.objects =
      p.objects ++ (p.addNumberedObjects label typeName count).2.map fun name => ⟨trim name, trim typeName⟩ := by
  induction count with
  | zero => exact (List.append_nil _).symm
  | succ count ih =>
    rw [addNumberedObjects_succ]
    dsimp only
    split
    · exact ih
    · rw [addObject, ih, List.map_append, List.append_assoc]
      rfl

/-- The names that are reported as added are those of the numbered objects that no declared object has. -/
theorem mem_addNumberedObjects (p : Problem) (label typeName : String) (count : Nat) (name : String) :
    name ∈ (p.addNumberedObjects label typeName count).2 ↔
      (∃ index < count, name = numberedName label index) ∧ ∀ object ∈ p.objects, object.name ≠ name := by
  induction count generalizing name with
  | zero => simp [addNumberedObjects]
  | succ count ih =>
    -- the name of the last object is new among those that are added before it
    have hNew : (p.addNumberedObjects label typeName count).1.objects.any
        (fun object => object.name = numberedName label count) = true ↔
          ∃ object ∈ p.objects, object.name = numberedName label count := by
      rw [objects_addNumberedObjects, List.any_append, Bool.or_eq_true, List.any_eq_true, List.any_eq_true]
      simp only [decide_eq_true_eq, List.mem_map]
      refine or_iff_left ?_
      rintro ⟨_, ⟨added, hAdded, rfl⟩, hName⟩
      obtain ⟨⟨index, hIndex, rfl⟩, -⟩ := (ih added).mp hAdded
      rw [trim_numberedName] at hName
      exact absurd (numberedName_injective label hName) (Nat.ne_of_lt hIndex)
    have hNames : (∃ index < count + 1, name = numberedName label index) ↔
        (∃ index < count, name = numberedName label index) ∨ name = numberedName label count := by
      simp only [Nat.lt_succ_iff_lt_or_eq, or_and_right, exists_or, exists_eq_left]
    rw [addNumberedObjects_succ, hNames, or_and_right, ← ih]
    dsimp only
    split
    · rename_i hThere
      obtain ⟨object, hObject, hName⟩ := hNew.mp hThere
      refine (or_iff_left ?_).symm
      rintro ⟨rfl, hNone⟩
      exact hNone object hObject hName
    · rename_i hFree
      rw [hNew] at hFree
      rw [List.mem_append, List.mem_singleton]
      refine or_congr_right ⟨?_, And.left⟩
      rintro rfl
      exact ⟨rfl, fun object hObject hName => hFree ⟨object, hObject, hName⟩⟩

end Problem

-- ---------------------------------------------------------------------------
-- What is left
-- ---------------------------------------------------------------------------

/-- What holds initially is what some predicate stands for. -/
theorem World.exists_of_holds {p : Problem} {w : World Float} (h : ofProblem p = .ok w) {target : Atom}
    (hHolds : w.Holds target) : ∃ a ∈ p.predicates, a.SameMeaning target := by
  unfold Holds at hHolds
  unfold Atom.SameMeaning
  cases hTarget : target.relation? with
  | some r =>
    rw [hTarget] at hHolds
    obtain ⟨a, ha, hRelation⟩ := Problem.mem_relations.mp ((holds_ofProblem_iff h).mp hHolds).1
    exact ⟨a, ha, hRelation, nofun⟩
  | none =>
    rw [hTarget] at hHolds
    obtain ⟨a, ha, hRelation, hFact⟩ := Problem.mem_facts.mp ((hasFact_ofProblem_iff h).mp hHolds)
    exact ⟨a, ha, hRelation, fun _ => hFact⟩

namespace Problem

/-- **What a removal leaves.** Names are removed, and found to be declared, in one spelling only, that of the call without
the blanks around it.

* After predicates are removed, one with the same names but for their case is written in `:init`, and is read there if the
  problem is valid, exactly if one is declared in another spelling. The world holds what was removed only if a predicate
  in another spelling stands for it.
* After goals are removed, one with the same names but for their case is written in `:goal`, and is read there if the
  problem is valid, exactly if one is declared in another spelling.
* After objects are removed, one with the same name but for its case is listed exactly if one is declared in another
  spelling.
* The numbered objects that are reported as added are those whose name no object has in this spelling. One that is an
  entity of the problem before is declared in another spelling. -/
theorem left_of_removal (p : Problem) :
    (∀ name args,
      let target := Atom.trimmed name args
      let left := (p.removePredicate name args).1
      ((∃ a ∈ listedAtoms left.predicates, a.SameNames target) ↔ target.RespelledIn p.predicates) ∧
      (left.IsValid → ∀ variant, ∃ entries,
        (Expression.read? (left.pddl variant)).bind Expression.initEntries? = some entries ∧
        ((∃ a : Atom, a.SameNames target ∧ a.expression ∈ entries) ↔ target.RespelledIn p.predicates)) ∧
      ∀ w, World.ofProblem left = .ok w → w.Holds target → ∃ a ∈ p.predicates, a.SameMeaning target ∧ a ≠ target) ∧
    (∀ name args,
      let target := Atom.trimmed name args
      let left := (p.removeGoal name args).1
      ((∃ a ∈ listedAtoms left.goals, a.SameNames target) ↔ target.RespelledIn p.goals) ∧
      (left.IsValid → ∀ variant, ∃ entries,
        (Expression.read? (left.pddl variant)).bind Expression.goalEntries? = some entries ∧
        ((∃ a : Atom, a.SameNames target ∧ a.expression ∈ entries) ↔ target.RespelledIn p.goals))) ∧
    (∀ name,
      (∃ group ∈ (p.removeObject name).1.typeGroups, ∃ listed ∈ group.2, lower listed = lower (trim name)) ↔
        ∃ object ∈ p.objects, lower object.name = lower (trim name) ∧ object.name ≠ trim name) ∧
    ∀ label typeName count name, name ∈ (p.addNumberedObjects label typeName count).2 ↔
      (∃ index < count, name = numberedName label index) ∧
        ∀ object ∈ p.objects, EntityId.ofName object.name = EntityId.ofName name → object.name ≠ name := by
  refine ⟨?_, ?_, ?_, ?_⟩
  · intro name args target left
    have hListed : (∃ a ∈ listedAtoms left.predicates, a.SameNames target) ↔ target.RespelledIn p.predicates :=
      exists_listed_iff p.predicates target
    refine ⟨hListed, ?_, ?_⟩
    · intro hValid variant
      rw [read?_pddl hValid, Option.bind_some, initEntries?_expression]
      refine ⟨_, rfl, ?_⟩
      simp only [mem_entries_iff, ← hListed, and_comm]
    · intro w hWorld hHolds
      obtain ⟨a, ha, hMeaning⟩ := World.exists_of_holds hWorld hHolds
      obtain ⟨hDeclared, hSpelling⟩ := List.mem_filter.mp ha
      exact ⟨a, hDeclared, hMeaning, of_decide_eq_true hSpelling⟩
  · intro name args target left
    have hListed : (∃ a ∈ listedAtoms left.goals, a.SameNames target) ↔ target.RespelledIn p.goals :=
      exists_listed_iff p.goals target
    refine ⟨hListed, ?_⟩
    intro hValid variant
    rw [read?_pddl hValid, Option.bind_some, goalEntries?_expression]
    refine ⟨_, rfl, ?_⟩
    have hEntries := mem_entries_iff left.goals []
    simp only [List.map_nil, List.append_nil] at hEntries
    simp only [hEntries, ← hListed, and_comm]
  · intro name
    rw [exists_listed_object_iff]
    simp only [removeObject, List.mem_filter, decide_eq_true_eq, and_assoc, and_comm (a := _ ≠ trim name)]
  · intro label typeName count name
    rw [mem_addNumberedObjects]
    refine and_congr_right fun _ => ?_
    constructor
    · exact fun hNone object hObject _ => hNone object hObject
    · intro hRespelled object hObject hName
      exact hRespelled object hObject (by rw [hName]) hName

/-- Of two repeated predicates the one in one spelling is gone, and the one in two spellings is still read. -/
theorem left_of_removal_of_repeated :
    let p : Problem := ⟨"rush", "logistics", [⟨"p1", "package"⟩, ⟨"quay", "location"⟩],
      [⟨"at", ["p1", "quay"]⟩, ⟨"open", ["quay"]⟩, ⟨"at", ["p1", "quay"]⟩, ⟨"OPEN", ["Quay"]⟩], [], []⟩
    let unplaced := (p.removePredicate " at " ["p1", "quay "]).1
    let closed := (p.removePredicate "open" ["quay"]).1
    unplaced.IsValid ∧ closed.IsValid ∧
      (∃ w, World.ofProblem unplaced = .ok w ∧ ¬ w.Holds ⟨"at", ["p1", "quay"]⟩) ∧
      ∃ entries, (Expression.read? (closed.pddl .classical)).bind Expression.initEntries? = some entries ∧
        ∃ a : Atom, a.SameNames ⟨"open", ["quay"]⟩ ∧ a.expression ∈ entries := by
  intro p unplaced closed
  have hUnplaced : unplaced.IsValid := by decide
  have hClosed : closed.IsValid := by decide
  obtain ⟨w, hWorld⟩ := World.exists_ofProblem (show (World.ofProblem unplaced).isOk = true by decide)
  obtain ⟨hPredicates, -⟩ := left_of_removal p
  refine ⟨hUnplaced, hClosed, ⟨w, hWorld, ?_⟩, ?_⟩
  · intro hHolds
    obtain ⟨a, ha, ⟨hRelation, -⟩, hOther⟩ := (hPredicates " at " ["p1", "quay "]).2.2 w hWorld hHolds
    -- no other predicate of the problem is about who is where
    have hPlaced : ∀ b ∈ p.predicates, b.relation? = (Atom.trimmed " at " ["p1", "quay "]).relation? →
        b = Atom.trimmed " at " ["p1", "quay "] := by decide
    exact hOther (hPlaced a ha hRelation)
  · obtain ⟨entries, hRead, hEntries⟩ := (hPredicates "open" ["quay"]).2.1 hClosed .classical
    exact ⟨entries, hRead, hEntries.mpr (by decide)⟩

/-- What is declared in capitals and removed in small letters is left, in the problem file and in the world; and a
numbered object is reported as added that is there in capitals. -/
theorem left_of_removal_in_capitals :
    let p : Problem := ⟨"rush", "logistics", [⟨"P1", "package"⟩, ⟨"loc1", "location"⟩, ⟨"Truck1", "truck"⟩],
      [⟨"at", ["P1", "loc1"]⟩, ⟨"at", ["p1", "loc1"]⟩], [], [⟨"at", ["P1", "loc1"]⟩]⟩
    let target : Atom := ⟨"at", ["p1", "loc1"]⟩
    let left := (p.removePredicate "at" ["p1", "loc1"]).1
    p.IsValid ∧ (∃ a ∈ listedAtoms left.predicates, a.SameNames target) ∧
      (∃ w, World.ofProblem left = .ok w ∧ w.Holds target) ∧
      (∃ a ∈ listedAtoms (p.removeGoal "at" ["p1", "loc1"]).1.goals, a.SameNames target) ∧
      (∃ group ∈ (p.removeObject "p1").1.typeGroups, ∃ listed ∈ group.2, lower listed = lower "p1") ∧
      ∃ name ∈ (p.addNumberedObjects "Truck" "truck" 2).2, ∃ object ∈ p.objects,
        EntityId.ofName object.name = EntityId.ofName name := by
  intro p target left
  obtain ⟨w, hWorld⟩ := World.exists_ofProblem (show (World.ofProblem left).isOk = true by decide)
  have hHolds : w.Holds target := by
    obtain ⟨-, rfl⟩ := World.ofProblem_eq_ok hWorld
    have hRelation : target.relation? = some ⟨.isAt, ⟨"p1"⟩, ⟨"loc1"⟩⟩ := by decide
    rw [World.Holds, hRelation]
    decide
  exact ⟨by decide, by decide, ⟨w, hWorld, hHolds⟩, by decide, by decide,
    by decide⟩

end Problem

end PlanReplay

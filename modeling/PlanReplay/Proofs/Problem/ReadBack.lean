import PlanReplay.Proofs.Decimal.Shortest
import PlanReplay.Proofs.Problem.Listed
import PlanReplay.Proofs.Problem.Symbol

/-!
# Reading a problem file back

The text of a valid problem is one expression with a section for each part of the problem. The expression is
written down here from the problem; that the text is read as it says that no symbol gets out of its place.

* `Problem.expression` — the expression of a problem for a variant of the domain.
* `Problem.spells_pddl` — the tokens of the problem file, piece by piece.
* `Problem.read_pddl` — the problem file is read as the expression of the problem.
* `Problem.read_values` — and its numbers as the doubles they are.
-/

namespace PlanReplay

open Text Decimal

-- ---------------------------------------------------------------------------
-- The expression of a problem
-- ---------------------------------------------------------------------------

/-- A predicate or goal: its name, then its arguments. -/
def Atom.expression (atom : Atom) : Expression := .list ((atom.name :: atom.args).map .atom)

/-- An assignment: the function with its arguments, then the value. -/
def Assignment.expression (f : Assignment) : Expression :=
  .list [.atom "=", .list ((f.name :: f.args).map .atom), .atom (floatText f.value)]

namespace Problem

/-- Objects by type: the first object of each name, types in the order of their first such object. -/
def objectItems (p : Problem) : List Expression :=
  let listed := firstOccurrences (fun object => lower object.name) p.objects
  (firstOccurrences id (listed.map (·.typeName))).flatMap fun typeName =>
    (listed.filter fun object => object.typeName = typeName).map (.atom ·.name) ++ [.atom "-", .atom typeName]

/-- The first of the atoms that differ only in case. -/
def firstAtoms (atoms : List Atom) : List Atom :=
  firstOccurrences (fun atom => (lower atom.name, atom.args.map lower)) atoms

/-- The assignments to the function and arguments of `f`, which may be written in another case. -/
def assignmentsTo (p : Problem) (f : Assignment) : List Assignment :=
  p.functions.filter fun g => (lower g.name, g.args.map lower) = (lower f.name, f.args.map lower)

/-- Functions with their arguments in the order in which they are first given a value, each with its last value. -/
def settledFunctions (p : Problem) : List Assignment :=
  (firstOccurrences (fun f => (lower f.name, f.args.map lower)) p.functions).map fun f =>
    { f with value := ((p.assignmentsTo f).getLast?.map (·.value)).getD f.value }

/-- The assignments that are written for a variant of the domain. -/
def writtenFunctions (p : Problem) (variant : DomainVariant) : List Assignment :=
  if variant.usesFunctions then p.settledFunctions else []

/-- The problem for a variant of the domain as an expression. -/
def expression (p : Problem) (variant : DomainVariant) : Expression :=
  .list [.atom "define",
    .list [.atom "problem", .atom p.name],
    .list [.atom ":domain", .atom p.domainName],
    .list (.atom ":objects" :: p.objectItems),
    .list (.atom ":init" ::
      ((firstAtoms p.predicates).map Atom.expression ++ (p.writtenFunctions variant).map Assignment.expression)),
    .list [.atom ":goal", .list (.atom "and" :: (firstAtoms p.goals).map Atom.expression)]]

-- ---------------------------------------------------------------------------
-- Lines
-- ---------------------------------------------------------------------------

theorem tokensOfItems_atoms (names : List String) :
    Expression.tokensOfItems (names.map .atom) = names.map .word := by
  induction names with
  | nil => rfl
  | cons name rest ih => simp [Expression.tokensOfItems, Expression.tokens, ih]

theorem tokens_names (name : String) (args : List String) :
    (Expression.list ((name :: args).map .atom)).tokens = .opening :: ((name :: args).map .word ++ [.closing]) := by
  rw [Expression.tokens, tokensOfItems_atoms]

/-- A name with its arguments is written as it is read. -/
theorem spells_atomText {name : String} {args : List String} (h : ∀ n ∈ name :: args, IsSymbol n) :
    Spells (atomText name args) (Expression.list ((name :: args).map .atom)).tokens := by
  have hOpening : Spells "(" [.opening] := fun _ => rfl
  have hClosing : Spells ")" [.closing] := fun _ => rfl
  have hNames := hClosing.words ⟨')', [], rfl, rfl⟩ fun n hn => (h n hn).isWord
  rw [tokens_names, atomText, String.append_assoc]
  exact hOpening.append hNames

/-- The lines of a section contribute the items of each, if each line with its end does. -/
theorem spells_sectionLines {β : Type} {indent : String} (hIndent : Spells indent []) {line : β → String}
    {items : β → List Expression} {list : List β}
    (h : ∀ b ∈ list, Spells (line b ++ "\n") (Expression.tokensOfItems (items b))) :
    Spells (sectionLines indent (list.map line)) (Expression.tokensOfItems (list.flatMap items)) := by
  have hLines : ∀ b ∈ list, Spells (indent ++ line b ++ "\n") (Expression.tokensOfItems (items b)) := by
    intro b hb
    rw [String.append_assoc]
    exact hIndent.append (h b hb)
  have hTokens : Expression.tokensOfItems (list.flatMap items) =
      list.flatMap fun b => Expression.tokensOfItems (items b) := by
    simp [Expression.tokensOfItems_eq, List.flatMap_assoc]
  rw [sectionLines, List.map_map, hTokens]
  exact Spells.join hLines

/-- A line that is one expression. -/
theorem spells_line {text : String} {expression : Expression} (h : Spells text expression.tokens) :
    Spells (text ++ "\n") (Expression.tokensOfItems [expression]) := by
  have hEnd : Spells "\n" [] := fun _ => rfl
  exact h.append hEnd

-- ---------------------------------------------------------------------------
-- Sections
-- ---------------------------------------------------------------------------

theorem objectItems_eq (p : Problem) : p.objectItems =
    p.typeGroups.flatMap fun (typeName, names) => names.map .atom ++ [.atom "-", .atom typeName] := by
  simp [objectItems, typeGroups, listedObjects, distinctBy_eq_firstOccurrences, List.flatMap_map, Function.comp_def]

/-- The names of a group are symbols, and so is its type: both are written in a declaration. -/
theorem Symbolic.of_mem_typeGroups {p : Problem} (hp : p.Symbolic) {typeName : String} {names : List String}
    (h : (typeName, names) ∈ p.typeGroups) : IsSymbol typeName ∧ ∀ name ∈ names, IsSymbol name := by
  obtain ⟨t, ht, hGroup⟩ := List.mem_map.mp h
  simp only [Prod.mk.injEq] at hGroup
  obtain ⟨rfl, rfl⟩ := hGroup
  constructor
  · obtain ⟨object, hObject, rfl⟩ := List.mem_map.mp (mem_of_mem_distinctBy ht)
    exact (hp.objects object (mem_of_mem_distinctBy hObject)).2
  · intro name hName
    obtain ⟨object, hObject, rfl⟩ := List.mem_map.mp hName
    exact (hp.objects object (mem_of_mem_distinctBy (List.mem_filter.mp hObject).1)).1

theorem spells_objects {p : Problem} (hp : p.Symbolic) :
    Spells (sectionLines "\t\t" (p.typeGroups.map fun (typeName, names) => " ".intercalate names ++ " - " ++ typeName))
      (Expression.tokensOfItems p.objectItems) := by
  rw [objectItems_eq]
  refine spells_sectionLines (fun _ => rfl) ?_
  rintro ⟨typeName, names⟩ hGroup
  obtain ⟨hType, hNames⟩ := hp.of_mem_typeGroups hGroup
  have hEnd : Spells (typeName ++ "\n") [.word typeName] :=
    Spells.word hType.isWord ⟨'\n', [], rfl, rfl⟩ fun _ => rfl
  have hHyphen : Spells " - " [.word "-"] := fun _ => rfl
  have hEnds : EndsWord (" - " ++ (typeName ++ "\n")) := EndsWord.append ⟨' ', ['-', ' '], rfl, rfl⟩ _
  have hLine := (hHyphen.append hEnd).words hEnds fun name hName => (hNames name hName).isWord
  simp only [Expression.tokensOfItems_eq, List.flatMap_append, String.append_assoc] at hLine ⊢
  rw [← Expression.tokensOfItems_eq, tokensOfItems_atoms]
  exact hLine

theorem firstAtoms_eq (atoms : List Atom) : firstAtoms atoms = listedAtoms atoms := by
  rw [listedAtoms, distinctBy_eq_firstOccurrences]
  rfl

theorem spells_atoms {atoms : List Atom} {indent : String} (hIndent : Spells indent [])
    (h : ∀ atom ∈ atoms, ∀ name ∈ atom.name :: atom.args, IsSymbol name) :
    Spells (sectionLines indent ((listedAtoms atoms).map fun atom => atomText atom.name atom.args))
      (Expression.tokensOfItems ((firstAtoms atoms).map Atom.expression)) := by
  have hItems : (firstAtoms atoms).map Atom.expression = (listedAtoms atoms).flatMap fun atom => [atom.expression] := by
    rw [firstAtoms_eq, List.map_eq_flatMap]
  rw [hItems]
  refine spells_sectionLines hIndent ?_
  intro atom hAtom
  exact spells_line (spells_atomText (h atom (mem_of_mem_distinctBy hAtom)))

theorem settledFunctions_eq (p : Problem) : p.settledFunctions = p.listedFunctions := by
  rw [settledFunctions, listedFunctions, distinctBy_eq_firstOccurrences]
  refine List.map_congr_left fun f _ => ?_
  simp [lastValue_eq, assignmentsTo, identityKey]

/-- The assignments are written where the variant has numbers. -/
theorem spells_functions {p : Problem} (hp : p.Symbolic) (variant : DomainVariant) :
    Spells (sectionLines "\t\t" (if variant.usesFunctions then
        p.listedFunctions.map fun f => "(= " ++ atomText f.name f.args ++ " " ++ floatText f.value ++ ")" else []))
      (Expression.tokensOfItems ((p.writtenFunctions variant).map Assignment.expression)) := by
  have hStart : Spells "(= " [.opening, .word "="] := fun _ => rfl
  have hSpace : Spells " " [] := fun _ => rfl
  have hClosing : Spells ")" [.closing] := fun _ => rfl
  have hNone : Spells (sectionLines "\t\t" []) [] := fun _ => rfl
  unfold writtenFunctions
  split
  · have hItems : p.settledFunctions.map Assignment.expression = p.listedFunctions.flatMap fun f => [f.expression] := by
      rw [settledFunctions_eq, List.map_eq_flatMap]
    rw [hItems]
    refine spells_sectionLines (fun _ => rfl) ?_
    intro f hf
    refine spells_line ?_
    -- a listed assignment has the name and the arguments of one that was made
    obtain ⟨g, hg, rfl⟩ := List.mem_map.mp hf
    have hNames := hp.functions g (mem_of_mem_distinctBy hg)
    have hValue := Spells.word (isWord_floatText (lastValue p.functions (identityKey g.name g.args) g.value))
      ⟨')', [], rfl, rfl⟩ hClosing
    have hLine := hStart.append ((spells_atomText hNames).append (hSpace.append hValue))
    simpa [String.append_assoc, Assignment.expression, Expression.tokens, Expression.tokensOfItems] using hLine
  · exact hNone

-- ---------------------------------------------------------------------------
-- The file
-- ---------------------------------------------------------------------------

/-- The tokens of a problem file are those of the expression of the problem. -/
theorem spells_pddl {p : Problem} (hp : p.Symbolic) (variant : DomainVariant) :
    Spells (p.pddl variant) (p.expression variant).tokens := by
  have hTwoTabs : Spells "\t\t" [] := fun _ => rfl
  have hThreeTabs : Spells "\t\t\t" [] := fun _ => rfl
  have hStart : Spells "(define (problem " [.opening, .word "define", .opening, .word "problem"] := fun _ => rfl
  have hDomain : Spells ")\n\t(:domain " [.closing, .opening, .word ":domain"] := fun _ => rfl
  have hClosed : Spells ")\n" [.closing] := fun _ => rfl
  have hObjects : Spells "\t(:objects\n" [.opening, .word ":objects"] := fun _ => rfl
  have hInit : Spells "\t(:init\n" [.opening, .word ":init"] := fun _ => rfl
  have hGoal : Spells "\t(:goal\n\t\t(and\n" [.opening, .word ":goal", .opening, .word "and"] := fun _ => rfl
  have hSectionEnd : Spells "\t)\n" [.closing] := fun _ => rfl
  have hEnd : Spells "\t\t)\n\t)\n)\n" [.closing, .closing, .closing] := fun _ => rfl
  -- the sections from the last one to the first
  have hGoals := hGoal.append ((spells_atoms hThreeTabs hp.goals).append hEnd)
  have hFunctions := (spells_functions hp variant).append (hSectionEnd.append hGoals)
  have hPredicates := hInit.append ((spells_atoms hTwoTabs hp.predicates).append hFunctions)
  have hListed := hObjects.append ((spells_objects hp).append (hSectionEnd.append hPredicates))
  have hEndsDomain := EndsWord.append (a := ")\n") ⟨')', _, rfl, rfl⟩
  have hEndsName := EndsWord.append (a := ")\n\t(:domain ") ⟨')', _, rfl, rfl⟩
  have hNames := hDomain.append (Spells.word hp.domainName.isWord (hEndsDomain _) (hClosed.append hListed))
  have hFile := hStart.append (Spells.word hp.name.isWord (hEndsName _) hNames)
  unfold pddl
  simp only [String.append_assoc, expression, Expression.tokens, Expression.tokensOfItems,
    Expression.tokensOfItems_append, List.cons_append, List.nil_append, List.append_assoc, List.append_nil] at hFile ⊢
  exact hFile

theorem read?_pddl {p : Problem} (hValid : p.IsValid) (variant : DomainVariant) :
    Expression.read? (p.pddl variant) = some (p.expression variant) :=
  Expression.read?_eq_some_iff.mpr (spells_pddl (isValid_iff.mp hValid) variant).tokens_eq

/-- **Reading back.** The file of a valid problem is read, from end to end, as the expression of the problem. So
as many parentheses close as open, and what is read in a section was written there. -/
theorem read_pddl {p : Problem} (h : p.IsValid) (variant : DomainVariant) :
    Expression.read? (p.pddl variant) = some (p.expression variant) ∧
      (p.pddl variant).toList.count '(' = (p.pddl variant).toList.count ')' := by
  have hTokens : tokens (p.pddl variant) = (p.expression variant).tokens :=
    (spells_pddl (isValid_iff.mp h) variant).tokens_eq
  have hRead := Expression.read?_eq_some_iff.mpr hTokens
  exact ⟨hRead, Expression.count_of_read? hRead⟩

/-- The values that are written are read as the doubles they are. -/
theorem read_values {p : Problem} (h : p.IsValid) (variant : DomainVariant) {f : Assignment}
    (hWritten : f ∈ p.writtenFunctions variant) :
    ∃ value, f.expression = .list [.atom "=", .list ((f.name :: f.args).map .atom), .atom value] ∧
      readFloat? value = some f.value := by
  have hFinite := (isValid_iff.mp h).values
  refine ⟨floatText f.value, rfl, readFloat?_floatText ?_⟩
  unfold writtenFunctions at hWritten
  split at hWritten
  · obtain ⟨g, hg, rfl⟩ := List.mem_map.mp hWritten
    rw [← distinctBy_eq_firstOccurrences] at hg
    cases hLast : (p.assignmentsTo g).getLast? with
    | none => exact hFinite g (mem_of_mem_distinctBy hg)
    | some last => exact hFinite last (List.mem_of_mem_filter (List.mem_of_getLast? hLast))
  · cases hWritten

/-- Repeated names are written once, in their first case, and the last of repeated values is written. A symbol can
look like a part of the layout. -/
theorem read_pddl_of_repetitions :
    let p : Problem := ⟨"rush", "logistics",
      [⟨"Van", "truck"⟩, ⟨"dépôt", "location"⟩, ⟨"VAN", "airplane"⟩, ⟨"-", "truck"⟩],
      [⟨"at", ["Van", "dépôt"]⟩, ⟨":goal", []⟩, ⟨"AT", ["van", "dépôt"]⟩],
      [⟨"fuel", ["Van"], 3⟩, ⟨"load", ["-"], -0.5⟩, ⟨"Fuel", ["VAN"], 2⟩],
      [⟨"at", ["-", "dépôt"]⟩]⟩
    p.IsValid ∧ Expression.read? (p.pddl .numeric) = some (.list [.atom "define",
      .list [.atom "problem", .atom "rush"],
      .list [.atom ":domain", .atom "logistics"],
      .list [.atom ":objects", .atom "Van", .atom "-", .atom "-", .atom "truck",
        .atom "dépôt", .atom "-", .atom "location"],
      .list [.atom ":init", .list [.atom "at", .atom "Van", .atom "dépôt"], .list [.atom ":goal"],
        .list [.atom "=", .list [.atom "fuel", .atom "Van"], .atom "2"],
        .list [.atom "=", .list [.atom "load", .atom "-"], .atom "-0.5"]],
      .list [.atom ":goal", .list [.atom "and", .list [.atom "at", .atom "-", .atom "dépôt"]]]]) := by
  intro p
  have hValid : p.IsValid := by decide
  refine ⟨hValid, ?_⟩
  rw [(read_pddl hValid .numeric).1]
  decide

end Problem

end PlanReplay

import PlanReplay.Proofs.Problem.ReadBack
import PlanReplay.Proofs.World.Initial

/-!
# The problem file and the initial world

A planner reads the problem file, the simulation starts from the initial world. Both are made from one problem that
may repeat its entries, and each deals with repetitions in its own way: the file writes the first of them, with the
last value, and the world is filled by one entry after the other. The text of a value in the file is read back as this
value (`Problem.read_values`).

* `World.ofProblem_agrees` — the entries of `:init` stand for what holds initially.
* `World.kindOf?_ofProblem` — the file lists the type of the first declaration of an object, the world takes the kind
  of the last one.
-/

namespace PlanReplay

open Text

-- ---------------------------------------------------------------------------
-- Names without their case
-- ---------------------------------------------------------------------------

theorem map_ofName_eq {names : List String} (h : ∀ name ∈ names, IsSymbol name) :
    names.map EntityId.ofName = (names.map lower).map EntityId.mk := by
  rw [List.map_map]
  exact List.map_congr_left fun name hName => (h name hName).ofName_eq

/-- Names that differ only in case name the same entities, and no other names do. -/
theorem map_ofName_eq_iff {names others : List String} (hNames : ∀ name ∈ names, IsSymbol name)
    (hOthers : ∀ name ∈ others, IsSymbol name) :
    names.map EntityId.ofName = others.map EntityId.ofName ↔ names.map lower = others.map lower := by
  have hInjective : Function.Injective EntityId.mk := fun a b h => EntityId.mk.inj h
  rw [map_ofName_eq hNames, map_ofName_eq hOthers, (List.map_injective_iff.mpr hInjective).eq_iff]

/-- Predicates that differ only in case stand for the same. -/
theorem Atom.same_of_lower {a b : Atom} (hNames : lower a.name = lower b.name)
    (hArgs : a.args.map EntityId.ofName = b.args.map EntityId.ofName) :
    a.relation? = b.relation? ∧ a.fact = b.fact := by
  constructor
  · rw [relation?, relation?, hNames, hArgs]
  · rw [fact, fact, Fact.ofName, Fact.ofName, hNames, hArgs]

theorem ResourceKey.ofFunctionName_congr {a b : String} (ha : IsSymbol a) (hb : IsSymbol b) (h : lower a = lower b) :
    ofFunctionName a = ofFunctionName b := by
  unfold ofFunctionName
  rw [ha.trim_eq, hb.trim_eq, h]

namespace Problem

/-- No fluent is given values under two names. -/
def OneNameEach (p : Problem) : Prop :=
  ∀ f ∈ p.functions, ∀ g ∈ p.functions, f.fluent = g.fluent → lower f.name = lower g.name

instance (p : Problem) : Decidable p.OneNameEach := inferInstanceAs (Decidable (∀ f ∈ _, ∀ g ∈ _, _ → _))

theorem Symbolic.fluent_eq_iff {p : Problem} (hp : p.Symbolic) (hNames : p.OneNameEach) {f g : Assignment}
    (hf : f ∈ p.functions) (hg : g ∈ p.functions) :
    f.fluent = g.fluent ↔ (lower f.name, f.args.map lower) = (lower g.name, g.args.map lower) := by
  have hSymbolsF := List.forall_mem_cons.mp (hp.functions f hf)
  have hSymbolsG := List.forall_mem_cons.mp (hp.functions g hg)
  have hArgs := map_ofName_eq_iff hSymbolsF.2 hSymbolsG.2
  rw [Prod.mk.injEq, ← hArgs]
  constructor
  · intro h
    exact ⟨hNames f hf g hg h, congrArg Fluent.args h⟩
  · rintro ⟨hName, hSame⟩
    rw [Assignment.fluent, Assignment.fluent, ResourceKey.ofFunctionName_congr hSymbolsF.1 hSymbolsG.1 hName, hSame]

end Problem

-- ---------------------------------------------------------------------------
-- What the file writes
-- ---------------------------------------------------------------------------

/-- The entries of the section `:init`. -/
def Text.Expression.initEntries? : Expression → Option (List Expression)
  | .list sections => sections.findSome? fun
    | .list (.atom head :: entries) => if head = ":init" then some entries else none
    | _ => none
  | .atom _ => none

namespace Problem

theorem initEntries?_expression (p : Problem) (variant : DomainVariant) : (p.expression variant).initEntries? =
    some ((firstAtoms p.predicates).map Atom.expression ++ (p.writtenFunctions variant).map Assignment.expression) := by
  simp [expression, Expression.initEntries?]

/-- What some predicate stands for is what some written one stands for. -/
theorem Symbolic.exists_firstAtom_iff {p : Problem} (hp : p.Symbolic) (stands : Option Relation → Fact → Prop) :
    (∃ atom ∈ firstAtoms p.predicates, stands atom.relation? atom.fact) ↔
      ∃ atom ∈ p.predicates, stands atom.relation? atom.fact := by
  rw [firstAtoms_eq]
  constructor
  · rintro ⟨atom, hAtom, hStands⟩
    exact ⟨atom, mem_of_mem_distinctBy hAtom, hStands⟩
  · rintro ⟨atom, hAtom, hStands⟩
    have hListed : ∃ first ∈ listedAtoms p.predicates,
        identityKey first.name first.args = identityKey atom.name atom.args := exists_mem_distinctBy hAtom
    obtain ⟨first, hFirst, hKey⟩ := hListed
    obtain ⟨hNames, hLowered⟩ := Prod.mk.inj hKey
    have hSymbolsFirst := (List.forall_mem_cons.mp (hp.predicates first (mem_of_mem_distinctBy hFirst))).2
    have hSymbols := (List.forall_mem_cons.mp (hp.predicates atom hAtom)).2
    have hArgs := (map_ofName_eq_iff hSymbolsFirst hSymbols).mpr hLowered
    obtain ⟨hRelation, hFact⟩ := Atom.same_of_lower hNames hArgs
    exact ⟨first, hFirst, by rw [hRelation, hFact]; exact hStands⟩

/-- A function is written with the last value that is given to its fluent. -/
theorem Symbolic.exists_settled_iff {p : Problem} (hp : p.Symbolic) (hNames : p.OneNameEach) {fluent : Fluent}
    {value : Float} : (∃ f ∈ p.settledFunctions, f.fluent = fluent ∧ f.value = value) ↔
      (p.functions.filter fun f => f.fluent = fluent).getLast?.map (·.value) = some value := by
  -- a written function has the name and the arguments of an assignment, and the value of the last one to them
  have hLast : ∀ f ∈ p.functions, p.assignmentsTo f = p.functions.filter fun g => g.fluent = f.fluent := by
    intro f hf
    refine List.filter_congr fun g hg => ?_
    rw [decide_eq_decide]
    exact (hp.fluent_eq_iff hNames hg hf).symm
  constructor
  · rintro ⟨_, hWritten, rfl, rfl⟩
    obtain ⟨f, hFirst, rfl⟩ := List.mem_map.mp hWritten
    rw [← distinctBy_eq_firstOccurrences] at hFirst
    have hf : f ∈ p.functions := mem_of_mem_distinctBy hFirst
    obtain ⟨last, hFound⟩ : ∃ last, (p.functions.filter fun g => g.fluent = f.fluent).getLast? = some last :=
      exists_getLast?_filter hf (by simp)
    have hSame : ∀ value, ({ f with value := value } : Assignment).fluent = f.fluent := fun _ => rfl
    rw [hSame, hLast f hf, hFound]
    rfl
  · intro h
    obtain ⟨last, hFound, hValue⟩ := Option.map_eq_some_iff.mp h
    obtain ⟨hMember, hFluent⟩ := List.mem_filter.mp (List.mem_of_getLast? hFound)
    have hListed : ∃ f ∈ distinctBy (fun f : Assignment => (lower f.name, f.args.map lower)) p.functions,
        (lower f.name, f.args.map lower) = (lower last.name, last.args.map lower) := exists_mem_distinctBy hMember
    obtain ⟨f, hFirst, hKey⟩ := hListed
    have hf : f ∈ p.functions := mem_of_mem_distinctBy hFirst
    have hSame : f.fluent = fluent :=
      ((hp.fluent_eq_iff hNames hf hMember).mpr hKey).trans (of_decide_eq_true hFluent)
    rw [distinctBy_eq_firstOccurrences] at hFirst
    refine ⟨_, List.mem_map_of_mem hFirst, hSame, ?_⟩
    rw [hLast f hf, hSame, hFound]
    exact hValue

end Problem

-- ---------------------------------------------------------------------------
-- The same start
-- ---------------------------------------------------------------------------

namespace World

/-- **The planner and the simulation start alike.** Let no subject be given two objects of a functional kind, and no
fluent values under two names. Then what holds initially is what the atoms that are read in `:init` stand for, and
where the variant has numbers, the fluents have the values that are read there. -/
theorem ofProblem_agrees {p : Problem} (hValid : p.IsValid) {w : World Float} (h : ofProblem p = .ok w)
    (hCoherent : p.Coherent) (hNames : p.OneNameEach) (variant : DomainVariant) :
    (Expression.read? (p.pddl variant)).bind Expression.initEntries? =
      some ((Problem.firstAtoms p.predicates).map Atom.expression ++
        (p.writtenFunctions variant).map Assignment.expression) ∧
    (∀ r, w.holds r = true ↔ ∃ atom ∈ Problem.firstAtoms p.predicates, atom.relation? = some r) ∧
    (∀ fact, w.hasFact fact = true ↔
      ∃ atom ∈ Problem.firstAtoms p.predicates, atom.relation? = none ∧ atom.fact = fact) ∧
    (variant.usesFunctions = true → ∀ key args value, w.fluent? key args = some value ↔
      ∃ f ∈ p.writtenFunctions variant, f.fluent = ⟨key, args⟩ ∧ f.value = value) := by
  have hp := Problem.isValid_iff.mp hValid
  refine ⟨?_, ?_, ?_, ?_⟩
  · have hTokens : tokens (p.pddl variant) = (p.expression variant).tokens := (Problem.spells_pddl hp variant).tokens_eq
    rw [Expression.read?_eq_some_iff.mpr hTokens, Option.bind_some, Problem.initEntries?_expression]
  · intro r
    have hAll := (forall_holds_iff_coherent h).mpr hCoherent
    have hListed : w.holds r = true ↔ r ∈ p.relations := ⟨fun hr => ((holds_ofProblem_iff h).mp hr).1, hAll r⟩
    rw [hListed, Problem.mem_relations, hp.exists_firstAtom_iff fun r? _ => r? = some r]
  · intro fact
    rw [hasFact_ofProblem_iff h, Problem.mem_facts, hp.exists_firstAtom_iff fun r? f => r? = none ∧ f = fact]
  · intro hUses key args value
    rw [fluent?_ofProblem h, Problem.writtenFunctions, if_pos hUses, hp.exists_settled_iff hNames]

/-- Predicates and assignments that repeat each other in other cases are one, in the file and in the world. -/
theorem ofProblem_agrees_of_repetitions :
    let p : Problem := ⟨"rush", "logistics", [⟨"Van", "truck"⟩, ⟨"depot", "location"⟩, ⟨"quay", "location"⟩],
      [⟨"At", ["Van", "depot"]⟩, ⟨"link", ["depot", "quay"]⟩, ⟨"at", ["van", "DEPOT"]⟩, ⟨"Open", ["quay"]⟩],
      [⟨"fuel", ["Van"], 3⟩, ⟨"distance", ["depot", "quay"], 7⟩, ⟨"FUEL", ["van"], 2⟩], []⟩
    let atoms : List Atom := [⟨"At", ["Van", "depot"]⟩, ⟨"link", ["depot", "quay"]⟩, ⟨"Open", ["quay"]⟩]
    let functions : List Assignment := [⟨"fuel", ["Van"], 2⟩, ⟨"distance", ["depot", "quay"], 7⟩]
    p.IsValid ∧ p.Coherent ∧ p.OneNameEach ∧ ∃ w, ofProblem p = .ok w ∧
      (Expression.read? (p.pddl .numeric)).bind Expression.initEntries? =
        some (atoms.map Atom.expression ++ functions.map Assignment.expression) ∧
      (∀ r, w.holds r = true ↔ ∃ atom ∈ atoms, atom.relation? = some r) ∧
      (∀ fact, w.hasFact fact = true ↔ ∃ atom ∈ atoms, atom.relation? = none ∧ atom.fact = fact) ∧
      ∀ key args value, w.fluent? key args = some value ↔
        ∃ f ∈ functions, f.fluent = ⟨key, args⟩ ∧ f.value = value := by
  intro p atoms functions
  have hValid : p.IsValid := by decide
  have hCoherent : p.Coherent := by decide +kernel
  have hNames : p.OneNameEach := by decide +kernel
  have hAtoms : Problem.firstAtoms p.predicates = atoms := by decide
  have hFunctions : p.writtenFunctions .numeric = functions := by decide
  obtain ⟨w, h⟩ := exists_ofProblem (show (ofProblem p).isOk = true by decide +kernel)
  obtain ⟨hRead, hRelations, hFacts, hFluents⟩ := ofProblem_agrees hValid h hCoherent hNames .numeric
  rw [hAtoms] at hRead hRelations hFacts
  rw [hFunctions] at hRead hFluents
  exact ⟨hValid, hCoherent, hNames, w, h, hRead, hRelations, hFacts, hFluents rfl⟩

end World

-- ---------------------------------------------------------------------------
-- Types and kinds
-- ---------------------------------------------------------------------------

namespace Problem

/-- The type under which a problem file lists an object. -/
def listedType? (p : Problem) (name : String) : Option String :=
  (p.typeGroups.find? fun (_, names) => names.any fun listed => lower listed = lower name).map Prod.fst

/-- The declarations of an object, in their order. -/
def declarationsOf (p : Problem) (name : String) : List ObjectDecl :=
  p.objects.filter fun object => lower object.name = lower name

theorem mem_typeGroups {p : Problem} {typeName : String} {names : List String} (h : (typeName, names) ∈ p.typeGroups)
    {name : String} (hName : name ∈ names) :
    ∃ object ∈ p.listedObjects, object.typeName = typeName ∧ object.name = name := by
  obtain ⟨t, -, hGroup⟩ := List.mem_map.mp h
  obtain ⟨rfl, rfl⟩ := Prod.mk.inj hGroup
  obtain ⟨object, hObject, rfl⟩ := List.mem_map.mp hName
  obtain ⟨hListed, hType⟩ := List.mem_filter.mp hObject
  exact ⟨object, hListed, of_decide_eq_true hType, rfl⟩

/-- Every listed object is in the group of its type. -/
theorem exists_mem_typeGroups {p : Problem} {object : ObjectDecl} (h : object ∈ p.listedObjects) :
    ∃ names, (object.typeName, names) ∈ p.typeGroups ∧ object.name ∈ names := by
  have hType : object.typeName ∈ p.listedObjects.map (·.typeName) := List.mem_map_of_mem h
  have hListed : ∃ t ∈ distinctBy id (p.listedObjects.map (·.typeName)), id t = id object.typeName :=
    exists_mem_distinctBy hType
  obtain ⟨_, hGroup, rfl⟩ := hListed
  refine ⟨_, List.mem_map_of_mem hGroup, ?_⟩
  exact List.mem_map_of_mem (List.mem_filter.mpr ⟨h, by simp⟩)

/-- An object is listed under the type of its first declaration. -/
theorem listedType?_eq {p : Problem} {name : String} {first : ObjectDecl}
    (h : (p.declarationsOf name).head? = some first) : p.listedType? name = some first.typeName := by
  rw [declarationsOf, List.head?_filter] at h
  -- an object is listed iff it is the first declaration of its name
  have hFirst : ∀ object ∈ p.listedObjects, lower object.name = lower name → object = first := by
    intro object hObject hName
    have hFound : (p.objects.find? fun other => lower other.name = lower object.name) = some object :=
      find?_of_mem_distinctBy hObject
    rw [hName, h, Option.some.injEq] at hFound
    exact hFound.symm
  have hName : lower first.name = lower name := by simpa using List.find?_some h
  have hListed : ∃ object ∈ p.listedObjects, lower object.name = lower first.name :=
    exists_mem_distinctBy (List.mem_of_find?_eq_some h)
  obtain ⟨object, hObject, hSame⟩ := hListed
  obtain rfl := hFirst object hObject (hSame.trans hName)
  obtain ⟨names, hGroup, hMember⟩ := exists_mem_typeGroups hObject
  cases hFound : p.typeGroups.find? fun (_, names) => names.any fun listed => lower listed = lower name with
  | none =>
    have hNone := List.find?_eq_none.mp hFound _ hGroup
    simp only [List.any_eq_true, decide_eq_true_eq, not_exists, not_and] at hNone
    exact absurd hName (hNone _ hMember)
  | some group =>
    obtain ⟨typeName, names⟩ := group
    have hSome := List.find?_some hFound
    change (names.any fun listed => lower listed = lower name) = true at hSome
    obtain ⟨listed, hIn, hLower⟩ := List.any_eq_true.mp hSome
    obtain ⟨other, hOther, rfl, rfl⟩ := mem_typeGroups (List.mem_of_find?_eq_some hFound) hIn
    rw [listedType?, hFound, hFirst other hOther (of_decide_eq_true hLower)]
    rfl

end Problem

namespace World

/-- A name that is declared keeps its kind when it is mentioned. -/
theorem kindOf?_mention {α : Type} {id : EntityId} (names : List String) : ∀ {w : World α},
    w.contains id = true → (w.mention names).kindOf? id = w.kindOf? id := by
  induction names with
  | nil => exact fun _ => rfl
  | cons name rest ih =>
    intro w hDeclared
    rw [mention, List.foldl_cons, ← mention]
    dsimp only
    split
    · exact ih hDeclared
    · rename_i hNew
      have hOther : id ≠ .ofName name := by
        rintro rfl
        exact hNew hDeclared
      rw [ih (by rw [contains_declare, hDeclared, Bool.or_true])]
      exact OrderedMap.get?_insert_ne _ _ hOther

theorem entities_foldl_declare {α : Type} (objects : List ObjectDecl) : ∀ w : World α,
    (objects.foldl (fun w object => w.declare (EntityId.ofName object.name) (EntityKind.ofTypeName object.typeName))
      w).entities =
    objects.foldl (fun entities object =>
      entities.insert (EntityId.ofName object.name) (EntityKind.ofTypeName object.typeName)) w.entities := by
  induction objects with
  | nil => exact fun _ => rfl
  | cons object rest ih => exact fun w => ih _

/-- Before anything is mentioned, the kind of an object is that of its last declaration. What is mentioned does not
change it. -/
theorem kindOf?_declared {α : Type} {p : Problem} {id : EntityId} {last : ObjectDecl}
    (h : (p.objects.filter fun object => EntityId.ofName object.name = id).getLast? = some last) :
    (declared p : World α).kindOf? id = some (.ofTypeName last.typeName) := by
  have hKind : ((p.objects.foldl (fun w object => w.declare (EntityId.ofName object.name)
      (EntityKind.ofTypeName object.typeName)) empty : World α).kindOf? id) = some (.ofTypeName last.typeName) := by
    rw [kindOf?, entities_foldl_declare, OrderedMap.get?_foldl_insert, h]
    rfl
  rw [declared, kindOf?_mention, hKind]
  rw [contains, OrderedMap.contains]
  exact Option.isSome_iff_exists.mpr ⟨_, hKind⟩

/-- **Types and kinds.** The problem file lists an object under the type of its first declaration, and the initial
world takes the kind from its last declaration. So the two agree iff these types stand for one kind. -/
theorem kindOf?_ofProblem {p : Problem} (hValid : p.IsValid) {w : World Float} (h : ofProblem p = .ok w)
    {object : ObjectDecl} (hObject : object ∈ p.objects) :
    ∃ first last, (p.declarationsOf object.name).head? = some first ∧
      (p.declarationsOf object.name).getLast? = some last ∧
      p.listedType? object.name = some first.typeName ∧
      w.kindOf? (.ofName object.name) = some (.ofTypeName last.typeName) ∧
      (w.kindOf? (.ofName object.name) = (p.listedType? object.name).map .ofTypeName ↔
        EntityKind.ofTypeName last.typeName = .ofTypeName first.typeName) := by
  have hp := Problem.isValid_iff.mp hValid
  have hSame : p.declarationsOf object.name =
      p.objects.filter fun o => EntityId.ofName o.name = .ofName object.name := by
    refine List.filter_congr fun o ho => ?_
    rw [decide_eq_decide]
    exact (EntityId.ofName_eq_iff (hp.objects o ho).1 (hp.objects object hObject).1).symm
  obtain ⟨last, hLast⟩ : ∃ last, (p.declarationsOf object.name).getLast? = some last :=
    exists_getLast?_filter hObject (by simp)
  obtain ⟨first, hFirst⟩ : ∃ first, (p.declarationsOf object.name).head? = some first := by
    cases hDeclarations : p.declarationsOf object.name with
    | nil => simp [hDeclarations] at hLast
    | cons first rest => exact ⟨first, rfl⟩
  have hType := Problem.listedType?_eq hFirst
  have hKind : w.kindOf? (.ofName object.name) = some (.ofTypeName last.typeName) := by
    obtain ⟨-, rfl⟩ := ofProblem_eq_ok h
    rw [hSame] at hLast
    exact kindOf?_declared hLast
  refine ⟨first, last, hFirst, hLast, hType, hKind, ?_⟩
  rw [hType, hKind, Option.map_some, Option.some.injEq]

/-- Types that stand for one kind agree, in whatever order they are declared. -/
theorem kindOf?_ofProblem_of_synonyms :
    let p : Problem := ⟨"rush", "logistics", [⟨"Jet", "plane"⟩, ⟨"hub", "airport"⟩, ⟨"jet", "Airplane"⟩], [], [], []⟩
    p.IsValid ∧ ∃ w, ofProblem p = .ok w ∧ w.kindOf? ⟨"jet"⟩ = (p.listedType? "jet").map .ofTypeName := by
  intro p
  have hValid : p.IsValid := by decide
  obtain ⟨w, h⟩ := exists_ofProblem (show (ofProblem p).isOk = true by decide)
  have hJet : (⟨"jet", "Airplane"⟩ : ObjectDecl) ∈ p.objects := by simp [p]
  obtain ⟨first, last, hFirst, hLast, -, -, hAgree⟩ := kindOf?_ofProblem hValid h hJet
  have hSynonyms : EntityKind.ofTypeName last.typeName = .ofTypeName first.typeName := by
    obtain rfl : ⟨"Jet", "plane"⟩ = first := Option.some.inj hFirst
    obtain rfl : ⟨"jet", "Airplane"⟩ = last := Option.some.inj hLast
    rfl
  exact ⟨hValid, w, h, hAgree.mpr hSynonyms⟩

/-- A name that is declared as a truck, and in capitals as an airplane: the planner sees a truck, and the simulation
has an airplane. -/
theorem kindOf?_ofProblem_takes_last :
    let p : Problem := ⟨"p", "logistics", [⟨"a", "truck"⟩, ⟨"A", "airplane"⟩], [], [], []⟩
    p.IsValid ∧ ∃ w, ofProblem p = .ok w ∧ p.listedType? "a" = some "truck" ∧
      w.kindOf? (.ofName "a") = some .airplane ∧ EntityKind.ofTypeName "truck" ≠ .airplane := by
  intro p
  have hValid : p.IsValid := by decide
  obtain ⟨w, h⟩ := exists_ofProblem (show (ofProblem p).isOk = true by decide)
  have hType : p.listedType? "a" = some "truck" := by decide
  have hKind : w.kindOf? (.ofName "a") = some .airplane := by
    obtain ⟨-, rfl⟩ := ofProblem_eq_ok h
    decide
  exact ⟨hValid, w, h, hType, hKind, by decide⟩

end World

end PlanReplay

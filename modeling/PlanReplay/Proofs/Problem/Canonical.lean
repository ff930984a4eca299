import PlanReplay.Problem.Reader
import PlanReplay.Proofs.Decimal.FloatText
import PlanReplay.Proofs.Problem.Listed
import PlanReplay.Proofs.Text.Trim

/-!
# The canonical form of a problem

The problem file lists of each object, predicate, assignment and goal one. Composed again from just these entries, a
problem has the same file; and entries that are added once more change nothing, in whatever case and order they come.
Both rest on what composing leaves behind: names without blanks around them, and no predicate that should have become an
assignment.

* `Problem.Composed` — the problems that can be composed, and `Problem.Tidy` — what holds of them.
* `Problem.composed_of_ofJson` — what is read is composed.
* `Problem.assignmentOf?_eq_none_iff` — whether a predicate becomes an assignment does not depend on case.
* `Problem.written`, `Problem.canonical` — what the problem file lists, and the problem composed of it.
* `Problem.Repeats` — a problem to which entries are added that it has.
* `Problem.pddl_canonical` — the canonical form and all repetitions have the same file.
-/

namespace PlanReplay

open Decimal Text

namespace Problem

-- ---------------------------------------------------------------------------
-- Composing
-- ---------------------------------------------------------------------------

/-- The problems that can be composed, in any order of steps. The names of problem and domain can be set at any time. -/
inductive Composed : Problem → Prop
  | ofNames (name domainName : String) : Composed (ofNames name domainName)
  | rename {p : Problem} (name domainName : String) : Composed p →
      Composed { p with name := name, domainName := domainName }
  | addObject {p : Problem} (name typeName : String) : Composed p → Composed (p.addObject name typeName)
  | addNumberedObjects {p : Problem} (label typeName : String) (count : Nat) : Composed p →
      Composed (p.addNumberedObjects label typeName count).1
  | removeObject {p : Problem} (name : String) : Composed p → Composed (p.removeObject name).1
  | addFunction {p : Problem} (name : String) (args : List String) (value : Float) : Composed p →
      Composed (p.addFunction name args value)
  | addPredicate {p : Problem} (name : String) (args : List String) : Composed p → Composed (p.addPredicate name args)
  | removePredicate {p : Problem} (name : String) (args : List String) : Composed p →
      Composed (p.removePredicate name args).1
  | addGoal {p : Problem} (name : String) (args : List String) : Composed p → Composed (p.addGoal name args)
  | removeGoal {p : Problem} (name : String) (args : List String) : Composed p → Composed (p.removeGoal name args).1
  | clear {p : Problem} : Composed p → Composed p.clear

/-- Names have no blanks around them, and no predicate is an assignment. -/
structure Tidy (p : Problem) : Prop where
  objects : ∀ o ∈ p.objects, trim o.name = o.name ∧ trim o.typeName = o.typeName
  predicates : ∀ a ∈ p.predicates, Atom.trimmed a.name a.args = a ∧ assignmentOf? a.name a.args = none
  functions : ∀ f ∈ p.functions, trim f.name = f.name ∧ f.args.map trim = f.args
  goals : ∀ a ∈ p.goals, Atom.trimmed a.name a.args = a

-- ---------------------------------------------------------------------------
-- Assignments in the shape of predicates
-- ---------------------------------------------------------------------------

/-- Names without case that stand for an assignment: `=` or `assign`, then a function, and a number as the last one. -/
def Assigns (key : String × List String) : Prop :=
  (key.1 = "=" ∨ key.1 = "assign") ∧ ∃ function rest last value,
    key.2 = function :: rest ∧ rest.getLast? = some last ∧ readFloat? last = some value

theorem lower_eq_equals_iff (name : String) : lower name = "=" ↔ name = "=" :=
  lower_eq_singleton_iff (show '='.toNat < 65 by decide) name

theorem readFloat?_lower (name : String) : readFloat? (lower name) = readFloat? name := by
  rw [readFloat?, lower, String.toList_ofList, readFloatChars_lowerChars, readFloat?]

/-- **Whether a predicate becomes an assignment** does not depend on case, nor on blanks around its names. -/
theorem assignmentOf?_eq_none_iff {name : String} {args : List String} :
    assignmentOf? name args = none ↔ ¬ Assigns (identityKey (trim name) (args.map trim)) := by
  have hName : trim name = "=" ∨ lower (trim name) = "assign" ↔ lower (trim name) = "=" ∨ lower (trim name) = "assign" :=
    or_congr_left (lower_eq_equals_iff _).symm
  unfold assignmentOf? Assigns identityKey
  dsimp only
  split
  · rename_i hAssign
    rw [hName] at hAssign
    simp only [hAssign, true_and]
    cases args with
    | nil => simp
    | cons function rest =>
      cases hLast : rest.getLast? with
      | none => simp [hLast]
      | some last => simp [hLast, readFloat?_lower, Option.eq_none_iff_forall_ne_some]
  · rename_i hOther
    rw [hName] at hOther
    simp [hOther]

theorem map_trim_map_trim (args : List String) : (args.map trim).map trim = args.map trim := by
  rw [List.map_map]
  exact List.map_congr_left fun arg _ => trim_trim arg

theorem trimmed_trimmed (name : String) (args : List String) :
    Atom.trimmed (trim name) (args.map trim) = Atom.trimmed name args := by
  rw [Atom.trimmed, trim_trim, map_trim_map_trim]
  rfl

/-- What is no assignment is none without the blanks around its names. -/
theorem assignmentOf?_trimmed {name : String} {args : List String} (h : assignmentOf? name args = none) :
    assignmentOf? (trim name) (args.map trim) = none := by
  rw [assignmentOf?_eq_none_iff] at h ⊢
  rwa [trim_trim, map_trim_map_trim]

-- ---------------------------------------------------------------------------
-- What composing leaves behind
-- ---------------------------------------------------------------------------

section Tidy

variable {p : Problem}

theorem Tidy.addObject (h : p.Tidy) (name typeName : String) : (p.addObject name typeName).Tidy := by
  refine ⟨?_, h.predicates, h.functions, h.goals⟩
  refine List.forall_mem_append.mpr ⟨h.objects, List.forall_mem_singleton.mpr ?_⟩
  exact ⟨trim_trim name, trim_trim typeName⟩

theorem Tidy.addNumberedObjects (h : p.Tidy) (label typeName : String) (count : Nat) :
    (p.addNumberedObjects label typeName count).1.Tidy := by
  unfold Problem.addNumberedObjects
  refine List.foldlRecOn (motive := fun before : Problem × List String => before.1.Tidy) _ _ h ?_
  intro before hBefore index _
  dsimp only
  split
  · exact hBefore
  · exact hBefore.addObject _ _

theorem Tidy.addFunction (h : p.Tidy) (name : String) (args : List String) (value : Float) :
    (p.addFunction name args value).Tidy := by
  refine ⟨h.objects, h.predicates, ?_, h.goals⟩
  refine List.forall_mem_append.mpr ⟨h.functions, List.forall_mem_singleton.mpr ?_⟩
  exact ⟨trim_trim name, map_trim_map_trim args⟩

theorem Tidy.addPredicate (h : p.Tidy) (name : String) (args : List String) : (p.addPredicate name args).Tidy := by
  unfold Problem.addPredicate
  cases hAssignment : assignmentOf? name args with
  | some a => exact h.addFunction _ _ _
  | none =>
    refine ⟨h.objects, ?_, h.functions, h.goals⟩
    refine List.forall_mem_append.mpr ⟨h.predicates, List.forall_mem_singleton.mpr ?_⟩
    exact ⟨trimmed_trimmed name args, assignmentOf?_trimmed hAssignment⟩

theorem Tidy.addGoal (h : p.Tidy) (name : String) (args : List String) : (p.addGoal name args).Tidy :=
  ⟨h.objects, h.predicates, h.functions,
    List.forall_mem_append.mpr ⟨h.goals, List.forall_mem_singleton.mpr (trimmed_trimmed name args)⟩⟩

/-- **What can be composed is tidy.** -/
theorem Composed.tidy (h : p.Composed) : p.Tidy := by
  induction h with
  | ofNames name domainName => exact ⟨nofun, nofun, nofun, nofun⟩
  | rename name domainName _ ih => exact ⟨ih.objects, ih.predicates, ih.functions, ih.goals⟩
  | addObject name typeName _ ih => exact ih.addObject name typeName
  | addNumberedObjects label typeName count _ ih => exact ih.addNumberedObjects label typeName count
  | removeObject name _ ih =>
    exact ⟨fun o ho => ih.objects o (List.mem_filter.mp ho).1, ih.predicates, ih.functions, ih.goals⟩
  | addFunction name args value _ ih => exact ih.addFunction name args value
  | addPredicate name args _ ih => exact ih.addPredicate name args
  | removePredicate name args _ ih =>
    exact ⟨ih.objects, fun a ha => ih.predicates a (List.mem_filter.mp ha).1, ih.functions, ih.goals⟩
  | addGoal name args _ ih => exact ih.addGoal name args
  | removeGoal name args _ ih =>
    exact ⟨ih.objects, ih.predicates, ih.functions, fun a ha => ih.goals a (List.mem_filter.mp ha).1⟩
  | clear _ _ => exact ⟨nofun, nofun, nofun, nofun⟩

end Tidy

-- ---------------------------------------------------------------------------
-- The canonical form
-- ---------------------------------------------------------------------------

/-- What the problem file lists: the objects group by group, each with the type of its group, the predicates and goals,
and the assignments with their values if the variant has them. -/
def written (p : Problem) (variant : DomainVariant) : Problem where
  name := p.name
  domainName := p.domainName
  objects := p.typeGroups.flatMap fun (typeName, names) => names.map fun name => ⟨name, typeName⟩
  predicates := listedAtoms p.predicates
  functions := if variant.usesFunctions then p.listedFunctions else []
  goals := listedAtoms p.goals

/-- Adds the entries of another problem, one after the other. -/
def addAll (p entries : Problem) : Problem :=
  let objects := entries.objects.foldl (fun p o => p.addObject o.name o.typeName) p
  let predicates := entries.predicates.foldl (fun p a => p.addPredicate a.name a.args) objects
  let functions := entries.functions.foldl (fun p f => p.addFunction f.name f.args f.value) predicates
  entries.goals.foldl (fun p a => p.addGoal a.name a.args) functions

/-- Entries that are added one after the other are composed. -/
theorem Composed.addAll {p : Problem} (h : p.Composed) (entries : Problem) : (p.addAll entries).Composed := by
  have hObjects := List.foldlRecOn (motive := Composed) entries.objects (fun p o => p.addObject o.name o.typeName) h
    fun _ hBefore o _ => hBefore.addObject o.name o.typeName
  have hPredicates := List.foldlRecOn (motive := Composed) entries.predicates (fun p a => p.addPredicate a.name a.args)
    hObjects fun _ hBefore a _ => hBefore.addPredicate a.name a.args
  have hFunctions := List.foldlRecOn (motive := Composed) entries.functions
    (fun p f => p.addFunction f.name f.args f.value) hPredicates
    fun _ hBefore f _ => hBefore.addFunction f.name f.args f.value
  exact List.foldlRecOn (motive := Composed) entries.goals (fun p a => p.addGoal a.name a.args) hFunctions
    fun _ hBefore a _ => hBefore.addGoal a.name a.args

/-- A problem that is read is composed. -/
theorem composed_of_ofJson {text : String} {p : Problem} (h : ofJson text = .ok p) : p.Composed := by
  unfold ofJson at h
  split at h
  · cases h
  · rename_i entries _
    dsimp only at h
    split at h
    · cases h
    · cases h
      exact (Composed.ofNames entries.name entries.domainName).addAll entries

/-- The problem composed from what the problem file lists. -/
def canonical (p : Problem) (variant : DomainVariant) : Problem := p.clear.addAll (p.written variant)

/-- Entries that are each put at the end are all put at the end. -/
theorem foldl_extend {β : Type} (extend : Problem → List β → Problem) (add : Problem → β → Problem) (list : List β)
    (hNone : ∀ p, extend p [] = p)
    (hOne : ∀ b ∈ list, ∀ p rest, extend (add p b) rest = extend p (b :: rest)) (p : Problem) :
    list.foldl add p = extend p list := by
  induction list generalizing p with
  | nil => exact (hNone p).symm
  | cons b rest ih =>
    rw [List.forall_mem_cons] at hOne
    rw [List.foldl_cons, ih hOne.2, hOne.1]

/-- Tidy entries are added as they are. -/
theorem addAll_eq {entries : Problem} (h : entries.Tidy) (p : Problem) :
    p.addAll entries = { p with
      objects := p.objects ++ entries.objects
      predicates := p.predicates ++ entries.predicates
      functions := p.functions ++ entries.functions
      goals := p.goals ++ entries.goals } := by
  have hObjects := foldl_extend (fun p list => { p with objects := p.objects ++ list })
    (fun p o => p.addObject o.name o.typeName) entries.objects (by simp) (by
      intro o ho p rest
      obtain ⟨hName, hType⟩ := h.objects o ho
      simp [addObject, hName, hType])
  have hPredicates := foldl_extend (fun p list => { p with predicates := p.predicates ++ list })
    (fun p a => p.addPredicate a.name a.args) entries.predicates (by simp) (by
      intro a ha p rest
      obtain ⟨hTrimmed, hAtom⟩ := h.predicates a ha
      simp [addPredicate, hAtom, hTrimmed])
  have hFunctions := foldl_extend (fun p list => { p with functions := p.functions ++ list })
    (fun p f => p.addFunction f.name f.args f.value) entries.functions (by simp) (by
      intro f hf p rest
      obtain ⟨hName, hArgs⟩ := h.functions f hf
      simp [addFunction, hName, hArgs])
  have hGoals := foldl_extend (fun p list => { p with goals := p.goals ++ list })
    (fun p a => p.addGoal a.name a.args) entries.goals (by simp) (by
      intro a ha p rest
      simp [addGoal, h.goals a ha])
  unfold addAll
  dsimp only
  rw [hObjects, hPredicates, hFunctions, hGoals]

section Written

variable (p : Problem) (variant : DomainVariant)

/-- The types in the order of their first listed object. -/
def listedTypes : List String := distinctBy id (p.listedObjects.map (·.typeName))

/-- The listed objects of a type. -/
def objectsOf (typeName : String) : List ObjectDecl := p.listedObjects.filter fun object => object.typeName = typeName

theorem written_objects : (p.written variant).objects = p.listedTypes.flatMap p.objectsOf := by
  change (p.typeGroups.flatMap _) = _
  rw [typeGroups, List.flatMap_map]
  refine List.flatMap_congr fun typeName _ => ?_
  dsimp only
  rw [List.map_map]
  refine (List.map_congr_left ?_).trans (List.map_id _)
  intro o ho
  have hType : o.typeName = typeName := of_decide_eq_true (List.mem_filter.mp ho).2
  change (⟨o.name, typeName⟩ : ObjectDecl) = o
  rw [← hType]

theorem nodup_listedTypes : p.listedTypes.Nodup := pairwise_distinctBy _

theorem typeName_of_mem_objectsOf {typeName : String} : ∀ o ∈ p.objectsOf typeName, o.typeName = typeName :=
  fun _ ho => of_decide_eq_true (List.mem_filter.mp ho).2

theorem mem_of_mem_written_objects {o : ObjectDecl} (h : o ∈ (p.written variant).objects) : o ∈ p.objects := by
  rw [written_objects] at h
  obtain ⟨typeName, -, ho⟩ := List.mem_flatMap.mp h
  exact mem_of_mem_distinctBy (List.mem_filter.mp ho).1

/-- What is written is tidy, and so it is composed as it is. -/
theorem Tidy.written (h : p.Tidy) : (p.written variant).Tidy := by
  refine ⟨fun o ho => h.objects o (p.mem_of_mem_written_objects variant ho),
    fun a ha => h.predicates a (mem_of_mem_distinctBy ha), ?_, fun a ha => h.goals a (mem_of_mem_distinctBy ha)⟩
  change ∀ f ∈ (if variant.usesFunctions then p.listedFunctions else []), _
  split
  · intro f hf
    obtain ⟨first, hFirst, rfl⟩ := List.mem_map.mp hf
    exact h.functions first (mem_of_mem_distinctBy hFirst)
  · exact nofun

theorem canonical_eq (h : p.Tidy) : p.canonical variant = p.written variant := by
  rw [canonical, addAll_eq (h.written p variant)]
  simp [clear, written]

-- ---------------------------------------------------------------------------
-- Listing what is listed
-- ---------------------------------------------------------------------------

theorem listedObjects_written : (p.written variant).listedObjects = (p.written variant).objects := by
  refine distinctBy_eq_self ?_
  have hListed : p.listedObjects.Pairwise fun a b => lower a.name ≠ lower b.name := pairwise_distinctBy _
  rw [written_objects, List.pairwise_flatMap]
  refine ⟨fun typeName _ => hListed.filter _, (nodup_listedTypes p).imp ?_⟩
  -- objects of two types are two objects, and so they have two names
  intro first second hTypes a ha b hb hName
  have hSame : b ∈ p.listedObjects.filter fun o => lower o.name = lower a.name :=
    List.mem_filter.mpr ⟨(List.mem_filter.mp hb).1, decide_eq_true hName.symm⟩
  rw [filter_key_eq hListed (List.mem_filter.mp ha).1, List.mem_singleton] at hSame
  refine hTypes ?_
  rw [← p.typeName_of_mem_objectsOf a ha, ← p.typeName_of_mem_objectsOf b hb, hSame]

/-- The groups of what is listed are the groups. -/
theorem typeGroups_written : (p.written variant).typeGroups = p.typeGroups := by
  have hGroups : ∀ t ∈ p.listedTypes, p.objectsOf t ≠ [] ∧ ∀ o ∈ p.objectsOf t, o.typeName = t := by
    intro t ht
    obtain ⟨o, ho, hType⟩ := List.mem_map.mp (mem_of_mem_distinctBy ht)
    exact ⟨List.ne_nil_of_mem (List.mem_filter.mpr ⟨ho, decide_eq_true hType⟩), p.typeName_of_mem_objectsOf⟩
  have hTypes : (p.written variant).listedTypes = p.listedTypes := by
    rw [listedTypes, listedObjects_written, written_objects, distinctBy_map]
    exact distinctBy_flatMap (nodup_listedTypes p) hGroups
  change (p.written variant).listedTypes.map _ = p.listedTypes.map _
  rw [hTypes, listedObjects_written, written_objects]
  refine List.map_congr_left fun t ht => ?_
  rw [filter_flatMap_groups (nodup_listedTypes p) (fun t ht => (hGroups t ht).2) ht]
  rfl

theorem listedAtoms_listedAtoms (atoms : List Atom) : listedAtoms (listedAtoms atoms) = listedAtoms atoms :=
  distinctBy_eq_self (pairwise_distinctBy _)

/-- Listed assignments have keys of their own, and their values are the last ones. -/
theorem listedFunctions_written (hNumbers : variant.usesFunctions = true) :
    (p.written variant).listedFunctions = p.listedFunctions := by
  have hFunctions : (p.written variant).functions = p.listedFunctions := if_pos hNumbers
  have hKeys : p.listedFunctions.Pairwise fun f g => identityKey f.name f.args ≠ identityKey g.name g.args := by
    rw [listedFunctions, List.pairwise_map]
    exact pairwise_distinctBy _
  unfold listedFunctions
  rw [hFunctions, distinctBy_eq_self hKeys]
  refine (List.map_congr_left ?_).trans (List.map_id _)
  intro f hf
  rw [lastValue_eq, filter_key_eq hKeys hf]
  rfl

theorem pddl_written : (p.written variant).pddl variant = p.pddl variant := by
  unfold pddl
  rw [typeGroups_written]
  change _ ++ sectionLines _ ((listedAtoms (listedAtoms p.predicates)).map _) ++ _ ++ _ ++ _ ++
    sectionLines _ ((listedAtoms (listedAtoms p.goals)).map _) ++ _ = _
  rw [listedAtoms_listedAtoms, listedAtoms_listedAtoms]
  cases hNumbers : variant.usesFunctions with
  | true =>
    rw [if_pos rfl, if_pos rfl, listedFunctions_written p variant hNumbers]
    rfl
  | false => rfl

end Written

-- ---------------------------------------------------------------------------
-- Repetitions
-- ---------------------------------------------------------------------------

/-- Objects, predicates and goals that the problem has are added again, in any order and any number of times, and each in
any case. -/
inductive Repeats (p : Problem) : Problem → Prop
  | none : Repeats p p
  | object {q : Problem} {o : ObjectDecl} (name typeName : String) : Repeats p q → o ∈ p.objects →
      lower (trim name) = lower o.name → Repeats p (q.addObject name typeName)
  | predicate {q : Problem} {a : Atom} (name : String) (args : List String) : Repeats p q → a ∈ p.predicates →
      identityKey (trim name) (args.map trim) = identityKey a.name a.args → Repeats p (q.addPredicate name args)
  | goal {q : Problem} {a : Atom} (name : String) (args : List String) : Repeats p q → a ∈ p.goals →
      identityKey (trim name) (args.map trim) = identityKey a.name a.args → Repeats p (q.addGoal name args)

/-- A problem has the entries of another one, and the same of them are listed. -/
structure SameListing (p q : Problem) : Prop where
  name : q.name = p.name
  domainName : q.domainName = p.domainName
  objects : p.objects ⊆ q.objects ∧ q.listedObjects = p.listedObjects
  predicates : p.predicates ⊆ q.predicates ∧ listedAtoms q.predicates = listedAtoms p.predicates
  functions : q.functions = p.functions
  goals : p.goals ⊆ q.goals ∧ listedAtoms q.goals = listedAtoms p.goals

section Repeats

variable {p q : Problem}

theorem SameListing.pddl_eq (h : SameListing p q) (variant : DomainVariant) : q.pddl variant = p.pddl variant := by
  have hGroups : q.typeGroups = p.typeGroups := by
    unfold typeGroups
    rw [h.objects.2]
  have hFunctions : q.listedFunctions = p.listedFunctions := by
    unfold listedFunctions
    rw [h.functions]
  unfold pddl
  rw [h.name, h.domainName, hGroups, hFunctions, h.predicates.2, h.goals.2]

/-- An atom in another spelling is not listed a second time. -/
theorem listedAtoms_concat {atoms : List Atom} {a : Atom} {name : String} {args : List String} (ha : a ∈ atoms)
    (h : identityKey (trim name) (args.map trim) = identityKey a.name a.args) :
    listedAtoms (atoms ++ [Atom.trimmed name args]) = listedAtoms atoms :=
  distinctBy_concat_of_mem ha h

/-- **What is added again is not listed again.** A predicate in another spelling does not become an assignment either. -/
theorem Repeats.sameListing (hTidy : p.Tidy) (h : Repeats p q) : SameListing p q := by
  induction h with
  | none => exact ⟨rfl, rfl, ⟨List.Subset.refl _, rfl⟩, ⟨List.Subset.refl _, rfl⟩, rfl, List.Subset.refl _, rfl⟩
  | object name typeName _ ho hName ih =>
    refine ⟨ih.name, ih.domainName, ⟨List.subset_append_of_subset_left _ ih.objects.1, ?_⟩, ih.predicates, ih.functions,
      ih.goals⟩
    exact (distinctBy_concat_of_mem (ih.objects.1 ho) hName).trans ih.objects.2
  | @predicate q a name args _ ha hName ih =>
    have hAtom : assignmentOf? name args = Option.none := by
      obtain ⟨hTrimmed, hNone⟩ := hTidy.predicates a ha
      rw [assignmentOf?_eq_none_iff] at hNone ⊢
      rw [hName]
      rwa [show trim a.name = a.name from congrArg Atom.name hTrimmed,
        show a.args.map trim = a.args from congrArg Atom.args hTrimmed] at hNone
    rw [addPredicate, hAtom]
    refine ⟨ih.name, ih.domainName, ih.objects, ⟨List.subset_append_of_subset_left _ ih.predicates.1, ?_⟩, ih.functions,
      ih.goals⟩
    exact (listedAtoms_concat (ih.predicates.1 ha) hName).trans ih.predicates.2
  | goal name args _ ha hName ih =>
    refine ⟨ih.name, ih.domainName, ih.objects, ih.predicates, ih.functions,
      List.subset_append_of_subset_left _ ih.goals.1, ?_⟩
    exact (listedAtoms_concat (ih.goals.1 ha) hName).trans ih.goals.2

end Repeats

/-- **The canonical form.** The problem that is composed from what the problem file lists has the same problem file; and
so has every problem to which entries are added again, as often and in whatever case and order this is done. -/
theorem pddl_canonical {p : Problem} (h : p.Composed) (variant : DomainVariant) :
    (p.canonical variant).pddl variant = p.pddl variant ∧ ∀ q, Repeats p q → q.pddl variant = p.pddl variant := by
  constructor
  · rw [canonical_eq p variant h.tidy]
    exact pddl_written p variant
  · exact fun q hRepeats => (hRepeats.sameListing h.tidy).pddl_eq variant

/-- Types that alternate, an assignment in the shape of a predicate, and entries in capitals. -/
theorem pddl_canonical_of_capitals :
    let p := (((((((ofNames "rush" "logistics").addObject "p1" "package").addObject "t1" "truck").addObject "p2"
      "package").addPredicate "at" ["p1", "t1"]).addPredicate "=" ["fuel", "t1", "3"]).addFunction "FUEL" ["T1"]
      4).addGoal "at" ["p2", "t1"]
    (p.canonical .numeric).pddl .numeric = p.pddl .numeric ∧
      ((((p.addGoal "AT" ["p2", " T1"]).addObject " P1 " "crate").addPredicate "At" ["P1", "t1"]).pddl .numeric =
        p.pddl .numeric) := by
  intro p
  have hComposed : p.Composed :=
    ((((((((Composed.ofNames "rush" "logistics").addObject "p1" "package").addObject "t1" "truck").addObject "p2"
      "package").addPredicate "at" ["p1", "t1"]).addPredicate "=" ["fuel", "t1", "3"]).addFunction "FUEL" ["T1"]
      4).addGoal "at" ["p2", "t1"])
  obtain ⟨hCanonical, hRepeats⟩ := pddl_canonical hComposed .numeric
  refine ⟨hCanonical, hRepeats _ ?_⟩
  refine .predicate (a := ⟨"at", ["p1", "t1"]⟩) _ _ ?_ (by decide) (by decide)
  refine .object (o := ⟨"p1", "package"⟩) _ _ ?_ (by decide) (by decide)
  exact .goal (a := ⟨"at", ["p2", "t1"]⟩) _ _ .none (by decide) (by decide)

end Problem

end PlanReplay

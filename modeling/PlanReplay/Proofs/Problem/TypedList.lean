import PlanReplay.Proofs.Problem.Canonical
import PlanReplay.Proofs.Problem.ReadBack

/-!
# Reading the objects of a problem file

The section of the objects is a typed list: names up to a hyphen, then their type. A planner reads it by this rule. It
gets the objects that are declared, one for each name, unless one of them is named by a hyphen itself; validation does not
refuse this name, and no reading gives an object with it.

* `readTyped` — reading a typed list.
* `readTyped_groups`, `name_ne_of_readTyped` — what is read of groups, and what is never read.
* `Problem.readTyped_objects` — when the objects are read back.
-/

namespace PlanReplay

open Text

-- ---------------------------------------------------------------------------
-- Typed lists
-- ---------------------------------------------------------------------------

/-- The objects of a typed list: names up to a hyphen, then their type. The names in `waiting` have no type yet; names
that are left without one are not read. -/
def readTyped : (waiting : List String) → List String → Option (List ObjectDecl)
  | [], [] => some []
  | _ :: _, [] => none
  | _, [_] => none
  | waiting, word :: next :: rest =>
    if word = "-" then (readTyped [] rest).map (waiting.map (⟨·, next⟩) ++ ·)
    else readTyped (waiting ++ [word]) (next :: rest)

/-- A word other than the hyphen waits for its type. -/
theorem readTyped_name {word : String} (hWord : word ≠ "-") (waiting rest : List String) :
    readTyped waiting (word :: rest) = readTyped (waiting ++ [word]) rest := by
  cases rest with
  | nil => cases waiting <;> rfl
  | cons next rest =>
    rw [readTyped, if_neg hWord]

/-- The names before a hyphen get the type after it. -/
theorem readTyped_group {names : List String} (hNames : ∀ name ∈ names, name ≠ "-") (waiting : List String)
    (typeName : String) (rest : List String) :
    readTyped waiting (names ++ "-" :: typeName :: rest) =
      (readTyped [] rest).map ((waiting ++ names).map (⟨·, typeName⟩) ++ ·) := by
  induction names generalizing waiting with
  | nil =>
    rw [List.nil_append, List.append_nil, readTyped, if_pos rfl]
  | cons name names ih =>
    obtain ⟨hName, hLater⟩ := List.forall_mem_cons.mp hNames
    rw [List.cons_append, readTyped_name hName, ih hLater, List.append_assoc, List.singleton_append]

/-- The words of groups of names, each with its type. -/
def groupWords (groups : List (String × List String)) : List String :=
  groups.flatMap fun (typeName, names) => names ++ ["-", typeName]

theorem readTyped_groups {groups : List (String × List String)}
    (hNames : ∀ group ∈ groups, ∀ name ∈ group.2, name ≠ "-") :
    readTyped [] (groupWords groups) = some (groups.flatMap fun (typeName, names) => names.map (⟨·, typeName⟩)) := by
  induction groups with
  | nil => rfl
  | cons group groups ih =>
    obtain ⟨typeName, names⟩ := group
    obtain ⟨hGroup, hLater⟩ := List.forall_mem_cons.mp hNames
    have hWords : groupWords ((typeName, names) :: groups) = names ++ "-" :: typeName :: groupWords groups := by
      simp [groupWords]
    rw [hWords, readTyped_group hGroup, ih hLater]
    rfl

/-- No object is read with a hyphen as its name. -/
theorem name_ne_of_readTyped {waiting words : List String} {objects : List ObjectDecl}
    (hWaiting : ∀ name ∈ waiting, name ≠ "-") (h : readTyped waiting words = some objects) :
    ∀ object ∈ objects, object.name ≠ "-" := by
  fun_induction readTyped waiting words generalizing objects with
  | case1 =>
    obtain rfl := Option.some.inj h
    exact nofun
  | case2 => cases h
  | case3 => cases h
  | case4 waiting next rest ih =>
    obtain ⟨later, hLater, rfl⟩ := Option.map_eq_some_iff.mp h
    refine List.forall_mem_append.mpr ⟨?_, ih (List.forall_mem_nil _) hLater⟩
    exact List.forall_mem_map.mpr hWaiting
  | case5 waiting word next rest hName ih =>
    refine ih ?_ h
    exact List.forall_mem_append.mpr ⟨hWaiting, List.forall_mem_singleton.mpr hName⟩

-- ---------------------------------------------------------------------------
-- The section of the objects
-- ---------------------------------------------------------------------------

namespace Text.Expression

/-- The word that an atom is. -/
def word? : Expression → Option String
  | .atom word => some word
  | .list _ => none

/-- The words of the section `:objects`. -/
def objectWords? : Expression → Option (List String)
  | .list sections => sections.findSome? fun
    | .list (.atom head :: entries) => if head = ":objects" then entries.mapM word? else none
    | _ => none
  | .atom _ => none

theorem mapM_word?_atoms (words : List String) : words.mapM (word? ∘ atom) = some words := by
  induction words with
  | nil => rfl
  | cons word rest ih => simp [List.mapM_cons, word?, ih]

end Text.Expression

namespace Problem

theorem objectItems_words (p : Problem) : p.objectItems = (groupWords p.typeGroups).map .atom := by
  rw [objectItems_eq, groupWords, List.map_flatMap]
  simp

theorem objectWords?_expression (p : Problem) (variant : DomainVariant) :
    (p.expression variant).objectWords? = some (groupWords p.typeGroups) := by
  simp [expression, Expression.objectWords?, objectItems_words, Expression.mapM_word?_atoms]

/-- The objects of the groups are the listed ones, in another order. -/
theorem written_objects_perm (p : Problem) (variant : DomainVariant) :
    (p.written variant).objects.Perm (firstOccurrences (fun object => lower object.name) p.objects) := by
  rw [written_objects, ← distinctBy_eq_firstOccurrences]
  refine flatMap_filter_perm p.nodup_listedTypes fun object hObject => ?_
  have hType : object.typeName ∈ p.listedObjects.map (·.typeName) := List.mem_map_of_mem hObject
  obtain ⟨typeName, hListed, hSame⟩ := @exists_mem_distinctBy _ _ _ id _ _ hType
  obtain rfl : typeName = object.typeName := hSame
  exact hListed

theorem exists_listed (p : Problem) {object : ObjectDecl} (h : object ∈ p.objects) :
    ∃ first ∈ p.listedObjects, lower first.name = lower object.name :=
  exists_mem_distinctBy h

theorem lower_eq_hyphen_iff (name : String) : lower name = "-" ↔ name = "-" :=
  lower_eq_singleton_iff (show '-'.toNat < 65 by decide) name

/--
**Typed lists.** The section `:objects` of the file of a valid problem, read as a typed list, gives the declared objects,
the first one of each name with its type, iff no object is named by a hyphen.
-/
theorem readTyped_objects {p : Problem} (h : p.IsValid) (variant : DomainVariant) :
    ∃ words, (Expression.read? (p.pddl variant)).bind Expression.objectWords? = some words ∧
      ((∃ objects, readTyped [] words = some objects ∧
          objects.Perm (firstOccurrences (fun object => lower object.name) p.objects)) ↔
        ∀ object ∈ p.objects, object.name ≠ "-") := by
  refine ⟨groupWords p.typeGroups, ?_, ?_, ?_⟩
  · rw [read?_pddl h]
    exact p.objectWords?_expression variant
  · rintro ⟨objects, hRead, hPerm⟩ object hObject hHyphen
    -- the first object of this name has no other name
    obtain ⟨first, hFirst, hSame⟩ := p.exists_listed hObject
    rw [hHyphen] at hSame
    rw [← distinctBy_eq_firstOccurrences] at hPerm
    exact name_ne_of_readTyped (List.forall_mem_nil _) hRead first (hPerm.mem_iff.mpr hFirst) ((lower_eq_hyphen_iff _).mp hSame)
  · intro hNames
    refine ⟨(p.written variant).objects, readTyped_groups ?_, p.written_objects_perm variant⟩
    intro group hGroup name hName
    obtain ⟨typeName, -, rfl⟩ := List.mem_map.mp hGroup
    obtain ⟨object, hObject, rfl⟩ := List.mem_map.mp hName
    exact hNames object (mem_of_mem_distinctBy (List.mem_filter.mp hObject).1)

/-- A name that is declared again in capitals is read once, and a type may be a hyphen. -/
theorem readTyped_objects_of_repetition :
    let p : Problem := ⟨"p", "d", [⟨"van", "-"⟩, ⟨"hub", "location"⟩, ⟨"VAN", "airplane"⟩, ⟨"jet", "-"⟩], [], [], []⟩
    p.IsValid ∧ ∃ words objects,
      (Expression.read? (p.pddl .classical)).bind Expression.objectWords? = some words ∧
      readTyped [] words = some objects ∧ objects.Perm [⟨"van", "-"⟩, ⟨"hub", "location"⟩, ⟨"jet", "-"⟩] := by
  intro p
  have hValid : p.IsValid := by decide
  obtain ⟨words, hWords, hRead⟩ := readTyped_objects hValid .classical
  obtain ⟨objects, hObjects, hPerm⟩ := hRead.mpr (by decide)
  exact ⟨hValid, words, objects, hWords, hObjects, hPerm⟩

/-- Of four trucks, one of them named by a hyphen, two objects are read, and one of these has a name as its type. -/
theorem readTyped_objects_of_hyphen :
    let p : Problem := ⟨"p", "d", [⟨"x", "truck"⟩, ⟨"-", "truck"⟩, ⟨"y", "truck"⟩, ⟨"z", "truck"⟩], [], [], []⟩
    p.IsValid ∧ ∃ words objects,
      (Expression.read? (p.pddl .classical)).bind Expression.objectWords? = some words ∧
      readTyped [] words = some objects ∧ objects = [⟨"x", "y"⟩, ⟨"z", "truck"⟩] ∧
      ¬ objects.Perm (firstOccurrences (fun object => lower object.name) p.objects) := by
  intro p
  have hValid : p.IsValid := by decide
  refine ⟨hValid, ["x", "-", "y", "z", "-", "truck"], _, ?_, rfl, rfl, by decide⟩
  rw [read?_pddl hValid]
  exact p.objectWords?_expression .classical

end Problem

end PlanReplay

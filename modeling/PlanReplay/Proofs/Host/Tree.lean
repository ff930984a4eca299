import Mathlib.Data.List.Induction
import PlanReplay.Host.FileTree
import PlanReplay.Proofs.Host.Path

/-!
# Locations and changes of file trees

A path is followed name by name, through directories. What the operations on a tree change is said once, as a
relation between the tree before and the tree after: directories stay, and a file is put or removed only at
locations that end with certain names.

* `FileTree.Passable`, `FileTree.follow_eq_ok` — when names can be followed, and where they lead.
* `FileTree.Evolves` — what may have changed between two trees.
* `FileTree.Evolves.locate` — a path that was found is found at the same location later.
* `FileTree.Rooted` — everything lies in a directory; kept by every operation.
-/

namespace PlanReplay

namespace FileTree

-- ---------------------------------------------------------------------------
-- Following names
-- ---------------------------------------------------------------------------

/-- Names can be followed from a location: through directories, and if they are short enough. -/
def Passable (t : FileTree) : Location → List String → Prop
  | _, [] => True
  | here, name :: rest =>
    t.node? here = some .directory ∧ (Path.IsProper name → name.utf8ByteSize ≤ longestName) ∧
      t.Passable (Path.enter here name) rest

theorem passable_append {t : FileTree} {here : Location} {names more : List String} :
    t.Passable here (names ++ more) ↔ t.Passable here names ∧ t.Passable (Path.arrive here names) more := by
  induction names generalizing here with
  | nil => exact (iff_of_eq (true_and _)).symm
  | cons name rest ih =>
    rw [List.cons_append, Passable, Passable, ih, Path.arrive_cons]
    exact ⟨fun ⟨h, hShort, hRest, hMore⟩ => ⟨⟨h, hShort, hRest⟩, hMore⟩,
      fun ⟨⟨h, hShort, hRest⟩, hMore⟩ => ⟨h, hShort, hRest, hMore⟩⟩

/-- Names are followed to the location to which they lead. -/
theorem follow_eq_ok {t : FileTree} {here l : Location} {names : List String} :
    t.follow here names = .ok l ↔ t.Passable here names ∧ l = Path.arrive here names := by
  induction names generalizing here with
  | nil =>
    rw [follow]
    exact ⟨fun h => ⟨trivial, (Except.ok.inj h).symm⟩, fun ⟨_, h⟩ => h ▸ rfl⟩
  | cons name rest ih =>
    rw [follow, Passable, Path.arrive_cons]
    cases hNode : t.node? here with
    | none => simp
    | some node =>
      cases node with
      | directory =>
        dsimp only
        unfold Path.enter Path.IsProper
        cases hSelf : Path.isSelf name with
        | true => simp [ih]
        | false =>
          by_cases hUp : name = ".."
          · simp [hUp, ih]
          · by_cases hLong : longestName < name.utf8ByteSize
            · simp [hUp, hLong, Nat.not_le.mpr hLong]
            · simp [hUp, hLong, ih, Nat.not_lt.mp hLong]
      | file | binary | program => simp

/-- A path that the system follows at all. -/
def IsPlainPath (path : String) : Prop :=
  path.toList.contains '\x00' = false ∧ path ≠ "" ∧ path.utf8ByteSize ≤ longestPath

theorem locate_eq_ok {t : FileTree} {path : String} {l : Location} :
    t.locate path = .ok l ↔
      IsPlainPath path ∧ t.Passable (t.startOf path) (Path.names path) ∧
        l = Path.arrive (t.startOf path) (Path.names path) := by
  rw [← follow_eq_ok]
  unfold locate resolve IsPlainPath
  cases path.toList.contains '\x00' with
  | true => simp
  | false =>
    by_cases hEmpty : path = ""
    · subst hEmpty
      simp [longestPath]
    · by_cases hLong : longestPath < path.utf8ByteSize
      · simp [hLong, Nat.not_le.mpr hLong]
      · simp [hLong, hEmpty, Nat.not_lt.mp hLong]

/-- What is at a path is at a location. -/
theorem nodeAt?_eq_some {t : FileTree} {path : String} {node : FileNode} (h : t.nodeAt? path = some node) :
    ∃ l, t.locate path = .ok l ∧ t.node? l = some node := by
  unfold nodeAt? at h
  split at h
  · rename_i l hLocate
    exact ⟨l, hLocate, h⟩
  · cases h

theorem nodeAt?_of_locate {t : FileTree} {path : String} {l : Location} (h : t.locate path = .ok l) :
    t.nodeAt? path = t.node? l := by
  rw [nodeAt?, h]

/-- Where a path ends whose last name is one of a file. -/
theorem locate_concat {t : FileTree} {path name : String} {before : List String} {l : Location}
    (hNames : Path.names path = before ++ [name]) (hName : Path.IsProper name) (h : t.locate path = .ok l) :
    l = Path.arrive (t.startOf path) before ++ [name] ∧
      t.node? (Path.arrive (t.startOf path) before) = some .directory := by
  obtain ⟨-, hPass, hArrive⟩ := locate_eq_ok.mp h
  rw [hNames, passable_append] at hPass
  rw [hNames, Path.arrive_concat hName] at hArrive
  exact ⟨hArrive, hPass.2.1⟩

-- ---------------------------------------------------------------------------
-- What is at a location after a change
-- ---------------------------------------------------------------------------

theorem node?_put {t : FileTree} {l : Location} (h : l ≠ []) (node : FileNode) (l' : Location) :
    (t.put l node).node? l' = if l' = l then some node else t.node? l' := by
  unfold node? put
  dsimp only
  rw [OrderedMap.get?_insert]
  by_cases hRoot : l' = []
  · subst hRoot
    rw [if_pos rfl, if_neg (Ne.symm h), if_pos rfl]
  · rw [if_neg hRoot, if_neg hRoot]

theorem node?_erase {t : FileTree} {l : Location} (h : l ≠ []) (l' : Location) :
    ({ t with nodes := t.nodes.erase l } : FileTree).node? l' = if l' = l then none else t.node? l' := by
  unfold node?
  dsimp only
  rw [OrderedMap.get?_erase]
  by_cases hRoot : l' = []
  · subst hRoot
    rw [if_pos rfl, if_neg (Ne.symm h), if_pos rfl]
  · rw [if_neg hRoot, if_neg hRoot]

/-- What is no directory is not the root. -/
theorem ne_nil_of_node? {t : FileTree} {l : Location} (h : t.node? l ≠ some .directory) : l ≠ [] := by
  rintro rfl
  exact h rfl

/-- What may have changed from one tree to another: files of certain names were put or removed, and directories were
made at certain locations where nothing was. Directories stay. -/
structure Evolves (t t' : FileTree) (isFile : String → Prop) (isMade : Location → Prop) : Prop where
  current : t'.current = t.current
  directories : ∀ l, t.node? l = some .directory → t'.node? l = some .directory
  nodes : ∀ l, t'.node? l = t.node? l ∨ (∃ here name, l = here ++ [name] ∧ isFile name) ∨
    (t.node? l = none ∧ t'.node? l = some .directory ∧ isMade l)

namespace Evolves

variable {t t' t'' : FileTree} {isFile : String → Prop} {isMade : Location → Prop}

theorem refl (t : FileTree) (isFile : String → Prop) (isMade : Location → Prop) : t.Evolves t isFile isMade :=
  ⟨rfl, fun _ h => h, fun _ => Or.inl rfl⟩

theorem trans (h : t.Evolves t' isFile isMade) (h' : t'.Evolves t'' isFile isMade) : t.Evolves t'' isFile isMade := by
  refine ⟨h'.current.trans h.current, fun l hl => h'.directories l (h.directories l hl), ?_⟩
  intro l
  rcases h.nodes l with hSame | hFile | ⟨hNone, hMade, hIs⟩
  · rcases h'.nodes l with hSame' | hFile | ⟨hNone', hMade', hIs'⟩
    · exact Or.inl (hSame'.trans hSame)
    · exact Or.inr (Or.inl hFile)
    · exact Or.inr (Or.inr ⟨hSame ▸ hNone', hMade', hIs'⟩)
  · exact Or.inr (Or.inl hFile)
  · -- a directory that was made stays
    exact Or.inr (Or.inr ⟨hNone, h'.directories l hMade, hIs⟩)

theorem mono {isFile' : String → Prop} {isMade' : Location → Prop} (h : t.Evolves t' isFile isMade)
    (hFile : ∀ name, isFile name → isFile' name) (hMade : ∀ l, isMade l → isMade' l) :
    t.Evolves t' isFile' isMade' := by
  refine ⟨h.current, h.directories, ?_⟩
  intro l
  rcases h.nodes l with hSame | ⟨here, name, hl, hIs⟩ | ⟨hNone, hDirectory, hIs⟩
  · exact Or.inl hSame
  · exact Or.inr (Or.inl ⟨here, name, hl, hFile name hIs⟩)
  · exact Or.inr (Or.inr ⟨hNone, hDirectory, hMade l hIs⟩)

theorem startOf (h : t.Evolves t' isFile isMade) (path : String) : t'.startOf path = t.startOf path := by
  unfold FileTree.startOf
  rw [h.current]

theorem passable (h : t.Evolves t' isFile isMade) {here : Location} {names : List String}
    (hPass : t.Passable here names) : t'.Passable here names := by
  induction names generalizing here with
  | nil => trivial
  | cons name rest ih =>
    obtain ⟨hHere, hShort, hRest⟩ := hPass
    exact ⟨h.directories here hHere, hShort, ih hRest⟩

/-- A path that was found is found at the same location. -/
theorem locate (h : t.Evolves t' isFile isMade) {path : String} {l : Location} (hLocate : t.locate path = .ok l) :
    t'.locate path = .ok l := by
  obtain ⟨hPlain, hPass, hArrive⟩ := locate_eq_ok.mp hLocate
  rw [locate_eq_ok, h.startOf]
  exact ⟨hPlain, h.passable hPass, hArrive⟩

/-- Whatever was at a location whose last name is another one is still there. -/
theorem node?_of_some (h : t.Evolves t' isFile isMade) {here : Location} {name : String} {node : FileNode}
    (hName : ¬ isFile name) (hNode : t.node? (here ++ [name]) = some node) : t'.node? (here ++ [name]) = some node := by
  rcases h.nodes (here ++ [name]) with hSame | ⟨here', name', hl, hIs⟩ | ⟨hNone, -, -⟩
  · rw [hSame, hNode]
  · have hLast : [name] = [name'] := (List.append_inj' hl rfl).2
    rw [← List.singleton_inj.mp hLast] at hIs
    exact absurd hIs hName
  · rw [hNone] at hNode
    cases hNode

/-- The files at a location whose last name is another one are those that were there. -/
theorem file_iff (h : t.Evolves t' isFile isMade) {name : String} (hName : ¬ isFile name) (here : Location)
    (text : String) : t'.node? (here ++ [name]) = some (.file text) ↔ t.node? (here ++ [name]) = some (.file text) := by
  refine ⟨?_, h.node?_of_some hName⟩
  intro hFile
  rcases h.nodes (here ++ [name]) with hSame | ⟨here', name', hl, hIs⟩ | ⟨-, hMade, -⟩
  · rw [← hSame, hFile]
  · have hLast : [name] = [name'] := (List.append_inj' hl rfl).2
    rw [← List.singleton_inj.mp hLast] at hIs
    exact absurd hIs hName
  · -- a directory is no file
    rw [hMade] at hFile
    cases hFile

/-- Whatever was at a path whose last name is another one is still there. -/
theorem nodeAt?_of_some (h : t.Evolves t' isFile isMade) {path name : String} {before : List String} {node : FileNode}
    (hNames : Path.names path = before ++ [name]) (hName : Path.IsProper name) (hOther : ¬ isFile name)
    (hNode : t.nodeAt? path = some node) : t'.nodeAt? path = some node := by
  obtain ⟨l, hLocate, hSome⟩ := nodeAt?_eq_some hNode
  obtain ⟨rfl, -⟩ := locate_concat hNames hName hLocate
  rw [nodeAt?_of_locate (h.locate hLocate), h.node?_of_some hOther hSome]

end Evolves

-- ---------------------------------------------------------------------------
-- The operations
-- ---------------------------------------------------------------------------

/-- Putting a file where no directory is. -/
theorem evolves_put {t : FileTree} {here : Location} {name : String} {node : FileNode}
    (hNode : t.node? (here ++ [name]) ≠ some .directory) {isFile : String → Prop} (hFile : isFile name)
    (isMade : Location → Prop) : t.Evolves (t.put (here ++ [name]) node) isFile isMade := by
  have hPut := node?_put (t := t) (ne_nil_of_node? hNode) node
  refine ⟨rfl, ?_, ?_⟩
  · intro l hl
    have hOther : l ≠ here ++ [name] := by
      rintro rfl
      exact hNode hl
    rw [hPut, if_neg hOther]
    exact hl
  · intro l
    by_cases hSame : l = here ++ [name]
    · exact Or.inr (Or.inl ⟨here, name, hSame, hFile⟩)
    · rw [hPut, if_neg hSame]
      exact Or.inl rfl

/-- Removing what is no directory. -/
theorem evolves_erase {t : FileTree} {here : Location} {name : String}
    (hNode : t.node? (here ++ [name]) ≠ some .directory) {isFile : String → Prop} (hFile : isFile name)
    (isMade : Location → Prop) :
    t.Evolves { t with nodes := t.nodes.erase (here ++ [name]) } isFile isMade := by
  have hErase := node?_erase (t := t) (ne_nil_of_node? hNode)
  refine ⟨rfl, ?_, ?_⟩
  · intro l hl
    have hOther : l ≠ here ++ [name] := by
      rintro rfl
      exact hNode hl
    rw [hErase, if_neg hOther]
    exact hl
  · intro l
    by_cases hSame : l = here ++ [name]
    · exact Or.inr (Or.inl ⟨here, name, hSame, hFile⟩)
    · rw [hErase, if_neg hSame]
      exact Or.inl rfl

/-- Making a directory where nothing is. -/
theorem evolves_make {t : FileTree} {here : Location} {name : String} (hNode : t.node? (here ++ [name]) = none)
    (isFile : String → Prop) {isMade : Location → Prop} (hMade : isMade (here ++ [name])) :
    t.Evolves (t.put (here ++ [name]) .directory) isFile isMade := by
  have hPut := node?_put (t := t) (List.append_ne_nil_of_right_ne_nil here (List.cons_ne_nil name [])) .directory
  refine ⟨rfl, ?_, ?_⟩
  · intro l hl
    rw [hPut]
    split
    · rfl
    · exact hl
  · intro l
    rw [hPut]
    split
    · rename_i hSame
      subst hSame
      exact Or.inr (Or.inr ⟨hNode, rfl, hMade⟩)
    · exact Or.inl rfl

/-- Creating directories along names makes directories on the way only. -/
theorem evolves_createAlong (names : List String) (isFile : String → Prop) :
    ∀ (t : FileTree) (here : Location) (made : Bool),
      t.Evolves (t.createAlong here made names).2 isFile (· ∈ Path.walk here names) := by
  induction names with
  | nil => exact fun t here made => .refl t isFile _
  | cons name rest ih =>
    intro t here made
    have hLater : ∀ (t' : FileTree) (made : Bool),
        t'.Evolves (t'.createAlong (Path.enter here name) made rest).2 isFile (· ∈ Path.walk here (name :: rest)) :=
      fun t' made => (ih t' _ made).mono (fun _ h => h) fun l hl => List.mem_cons_of_mem _ hl
    rw [createAlong]
    by_cases hSelf : Path.isSelf name = true
    · have hEnter : Path.enter here name = here := if_pos hSelf
      rw [if_pos hSelf]
      rw [hEnter] at hLater
      exact hLater t made
    · rw [if_neg hSelf]
      by_cases hUp : name = ".."
      · have hEnter : Path.enter here name = here.dropLast := by
          rw [Path.enter, if_neg hSelf, if_pos hUp]
        rw [if_pos hUp]
        rw [hEnter] at hLater
        exact hLater t made
      · have hEnter : Path.enter here name = here ++ [name] := by
          rw [Path.enter, if_neg hSelf, if_neg hUp]
        rw [if_neg hUp]
        rw [hEnter] at hLater
        split
        · exact .refl t isFile _
        · dsimp only
          split
          · exact hLater t made
          · -- the directory is missing so far
            rename_i hNone
            have hOnTheWay : here ++ [name] ∈ Path.walk here (name :: rest) := by
              rw [Path.walk, hEnter]
              exact List.mem_cons_self
            exact (evolves_make hNone isFile hOnTheWay).trans (hLater _ true)
          · exact .refl t isFile _

theorem evolves_createDirectories (t : FileTree) (path : String) (isFile : String → Prop) :
    t.Evolves (t.createDirectories path).2 isFile (· ∈ Path.walk (t.startOf path) (Path.names path)) := by
  unfold createDirectories
  split
  · exact .refl t isFile _
  · split
    · exact .refl t isFile _
    · exact evolves_createAlong _ isFile t _ false

section Files

variable {t t' : FileTree} {path : String}

/-- A file that is written is at the location of its path, where no directory was. -/
theorem writeFile_eq_ok {content : String} (h : t.writeFile path content = .ok t') :
    ∃ l, t.locate path = .ok l ∧ t.node? l ≠ some .directory ∧ t' = t.put l (.file content) := by
  unfold writeFile putFile at h
  split at h
  · cases h
  · rename_i l hLocate
    split at h
    · cases h
    · rename_i hNode
      exact ⟨l, hLocate, hNode, (Except.ok.inj h).symm⟩

theorem removeFile_eq_ok (h : t.removeFile path = .ok t') :
    ∃ l, t.locate path = .ok l ∧ t.node? l ≠ some .directory ∧ t' = { t with nodes := t.nodes.erase l } := by
  unfold removeFile at h
  split at h
  · cases h
  · rename_i l hLocate
    split at h
    · cases h
    · cases h
    · rename_i node hNode hSome
      exact ⟨l, hLocate, fun hIs => hNode (Option.some.inj (hSome.symm.trans hIs)), (Except.ok.inj h).symm⟩

/-- A file that is renamed goes from the one location to the other, and neither is one of a directory. -/
theorem renameFile_eq_ok {target : String} (h : t.renameFile path target = .ok t') :
    ∃ l goal node, t.locate path = .ok l ∧ t.locate target = .ok goal ∧ t.node? l = some node ∧ node ≠ .directory ∧
      t.node? goal ≠ some .directory ∧ t' = { t with nodes := t.nodes.erase l }.put goal node := by
  unfold renameFile at h
  split at h
  · cases h
  · cases h
  · rename_i l goal hSource hTarget
    split at h
    · cases h
    · cases h
    · rename_i node hNode hFile
      split at h
      · cases h
      · rename_i hGoal
        exact ⟨l, goal, node, hSource, hTarget, hFile, fun hIs => hNode (hIs ▸ rfl), hGoal, (Except.ok.inj h).symm⟩

variable {name : String} {before : List String} {isFile : String → Prop} (hNames : Path.names path = before ++ [name])
  (hName : Path.IsProper name)

include hNames hName

/-- Writing a file changes that file. -/
theorem evolves_writeFile {content : String} (hFile : isFile name) (isMade : Location → Prop)
    (h : t.writeFile path content = .ok t') : t.Evolves t' isFile isMade := by
  obtain ⟨l, hLocate, hNode, rfl⟩ := writeFile_eq_ok h
  obtain ⟨rfl, -⟩ := locate_concat hNames hName hLocate
  exact evolves_put hNode hFile isMade

/-- What was written to a file is there. -/
theorem nodeAt?_writeFile {content : String} (h : t.writeFile path content = .ok t') :
    t'.nodeAt? path = some (.file content) := by
  have hStays : t.Evolves t' (fun _ => True) fun _ => True := evolves_writeFile hNames hName trivial _ h
  obtain ⟨l, hLocate, hNode, rfl⟩ := writeFile_eq_ok h
  rw [nodeAt?_of_locate (hStays.locate hLocate), node?_put (ne_nil_of_node? hNode), if_pos rfl]

/-- Removing a file changes that file. -/
theorem evolves_removeFile (hFile : isFile name) (isMade : Location → Prop) (h : t.removeFile path = .ok t') :
    t.Evolves t' isFile isMade := by
  obtain ⟨l, hLocate, hNode, rfl⟩ := removeFile_eq_ok h
  obtain ⟨rfl, -⟩ := locate_concat hNames hName hLocate
  exact evolves_erase hNode hFile isMade

variable {target goalName : String} {goalBefore : List String}
  (hGoalNames : Path.names target = goalBefore ++ [goalName]) (hGoalName : Path.IsProper goalName)

include hGoalNames hGoalName

/-- Renaming a file changes the files of the two names. -/
theorem evolves_renameFile (hFile : isFile name) (hGoalFile : isFile goalName) (isMade : Location → Prop)
    (h : t.renameFile path target = .ok t') : t.Evolves t' isFile isMade := by
  obtain ⟨l, goal, node, hSource, hTarget, hSome, hIsFile, hGoal, rfl⟩ := renameFile_eq_ok h
  obtain ⟨rfl, -⟩ := locate_concat hNames hName hSource
  obtain ⟨rfl, -⟩ := locate_concat hGoalNames hGoalName hTarget
  have hNode : t.node? (Path.arrive (t.startOf path) before ++ [name]) ≠ some .directory := by
    rw [hSome]
    exact fun hIs => hIsFile (Option.some.inj hIs)
  refine (evolves_erase hNode hFile isMade).trans (evolves_put ?_ hGoalFile isMade)
  rw [node?_erase (ne_nil_of_node? hNode)]
  split
  · exact nofun
  · exact hGoal

/-- What had the old name has the new one. -/
theorem nodeAt?_renameFile (h : t.renameFile path target = .ok t') : t'.nodeAt? target = t.nodeAt? path := by
  have hStays : t.Evolves t' (fun _ => True) fun _ => True :=
    evolves_renameFile hNames hName hGoalNames hGoalName trivial trivial _ h
  obtain ⟨l, goal, node, hSource, hTarget, hSome, hIsFile, hGoal, rfl⟩ := renameFile_eq_ok h
  rw [nodeAt?_of_locate (hStays.locate hTarget), nodeAt?_of_locate hSource, hSome,
    node?_put (ne_nil_of_node? hGoal), if_pos rfl]

end Files

-- ---------------------------------------------------------------------------
-- Trees in which everything lies in a directory
-- ---------------------------------------------------------------------------

/-- Whatever is in a tree lies in a directory of it, and the current directory is one. -/
structure Rooted (t : FileTree) : Prop where
  current : t.node? t.current = some .directory
  inside : ∀ here name node, t.node? (here ++ [name]) = some node → t.node? here = some .directory

namespace Rooted

variable {t t' : FileTree}

theorem startOf (h : t.Rooted) (path : String) : t.node? (t.startOf path) = some .directory := by
  unfold FileTree.startOf
  split
  · rfl
  · exact h.current

/-- Every location on the way to something is one of a directory. -/
theorem above (h : t.Rooted) {here rest : Location} {node : FileNode} (hRest : rest ≠ [])
    (hNode : t.node? (here ++ rest) = some node) : t.node? here = some .directory := by
  induction rest using List.reverseRecOn generalizing node with
  | nil => exact absurd rfl hRest
  | append_singleton rest name ih =>
    rw [← List.append_assoc] at hNode
    have hParent := h.inside _ name node hNode
    by_cases hEmpty : rest = []
    · rw [hEmpty, List.append_nil] at hParent
      exact hParent
    · exact ih hEmpty hParent

theorem dropLast (h : t.Rooted) {here : Location} (hNode : t.node? here = some .directory) :
    t.node? here.dropLast = some .directory := by
  rcases List.eq_nil_or_concat here with rfl | ⟨parent, name, rfl⟩
  · rfl
  · rw [List.concat_eq_append] at hNode ⊢
    rw [List.dropLast_concat]
    exact h.inside parent name _ hNode

/-- A name that leads from a directory leads to one, or to a place inside the directory. -/
theorem enter (h : t.Rooted) {here : Location} (hNode : t.node? here = some .directory) (name : String) :
    t.node? (Path.enter here name) = some .directory ∨
      ∃ parent last, Path.enter here name = parent ++ [last] ∧ t.node? parent = some .directory := by
  unfold Path.enter
  split
  · exact Or.inl hNode
  · split
    · exact Or.inl (h.dropLast hNode)
    · exact Or.inr ⟨here, name, rfl, hNode⟩

/-- A path leads to a directory, or to a place inside one. -/
theorem located (h : t.Rooted) {path : String} {l : Location} (hLocate : t.locate path = .ok l) :
    t.node? l = some .directory ∨ ∃ parent last, l = parent ++ [last] ∧ t.node? parent = some .directory := by
  obtain ⟨-, hPass, rfl⟩ := locate_eq_ok.mp hLocate
  have hWay : ∀ (names : List String) (here : Location), t.Passable here names →
      (t.node? here = some .directory ∨ ∃ parent last, here = parent ++ [last] ∧ t.node? parent = some .directory) →
      t.node? (Path.arrive here names) = some .directory ∨
        ∃ parent last, Path.arrive here names = parent ++ [last] ∧ t.node? parent = some .directory := by
    intro names
    induction names with
    | nil => exact fun here _ hHere => hHere
    | cons name rest ih =>
      intro here hPass _
      exact ih _ hPass.2.2 (h.enter hPass.1 name)
  exact hWay _ _ hPass (Or.inl (h.startOf path))

/-- Putting something inside a directory, where no directory is. -/
theorem put (h : t.Rooted) {here : Location} {name : String} (hHere : t.node? here = some .directory)
    (hNode : t.node? (here ++ [name]) ≠ some .directory) (node : FileNode) : (t.put (here ++ [name]) node).Rooted := by
  have hEvolves : t.Evolves (t.put (here ++ [name]) node) (fun _ => True) fun _ => True := evolves_put hNode trivial _
  have hStays := hEvolves.directories
  have hPut := node?_put (t := t) (ne_nil_of_node? hNode) node
  refine ⟨hStays _ h.current, ?_⟩
  intro here' name' node' hSome
  rw [hPut] at hSome
  split at hSome
  · rename_i hSame
    rw [(List.append_inj' hSame rfl).1]
    exact hStays here hHere
  · exact hStays here' (h.inside here' name' node' hSome)

/-- Removing what is no directory. -/
theorem erase (h : t.Rooted) {l : Location} (hNode : t.node? l ≠ some .directory) :
    ({ t with nodes := t.nodes.erase l } : FileTree).Rooted := by
  have hErase := node?_erase (t := t) (ne_nil_of_node? hNode)
  have hStays : ∀ l', t.node? l' = some .directory →
      ({ t with nodes := t.nodes.erase l } : FileTree).node? l' = some .directory := by
    intro l' hl'
    have hOther : l' ≠ l := by
      rintro rfl
      exact hNode hl'
    rw [hErase, if_neg hOther]
    exact hl'
  refine ⟨hStays _ h.current, ?_⟩
  intro here' name' node' hSome
  rw [hErase] at hSome
  split at hSome
  · cases hSome
  · exact hStays here' (h.inside here' name' node' hSome)

/-- A file can only be put inside a directory. -/
theorem putLocated (h : t.Rooted) {path : String} {l : Location} (hLocate : t.locate path = .ok l)
    (hNode : t.node? l ≠ some .directory) (node : FileNode) : (t.put l node).Rooted := by
  rcases h.located hLocate with hDirectory | ⟨parent, last, rfl, hParent⟩
  · exact absurd hDirectory hNode
  · exact h.put hParent hNode node

theorem createAlong (names : List String) : ∀ {t : FileTree} (_ : t.Rooted) {here : Location} (made : Bool),
    t.node? here = some .directory → (t.createAlong here made names).2.Rooted := by
  induction names with
  | nil => exact fun h _ _ _ => h
  | cons name rest ih =>
    intro t h here made hHere
    rw [FileTree.createAlong]
    split
    · exact ih h made hHere
    · split
      · exact ih h made (h.dropLast hHere)
      · split
        · exact h
        · dsimp only
          split
          · rename_i hInner
            exact ih h made hInner
          · -- the directory is missing so far
            rename_i hNone
            have hNode : t.node? (here ++ [name]) ≠ some .directory := by
              rw [hNone]
              exact nofun
            refine ih (h.put hHere hNode .directory) true ?_
            rw [node?_put (ne_nil_of_node? hNode), if_pos rfl]
          · exact h

theorem createDirectories (h : t.Rooted) (path : String) : (t.createDirectories path).2.Rooted := by
  unfold FileTree.createDirectories
  split
  · exact h
  · split
    · exact h
    · exact createAlong _ h false (h.startOf path)

theorem writeFile (h : t.Rooted) {path content : String} (hWrite : t.writeFile path content = .ok t') : t'.Rooted := by
  obtain ⟨l, hLocate, hNode, rfl⟩ := writeFile_eq_ok hWrite
  exact h.putLocated hLocate hNode _

theorem removeFile (h : t.Rooted) {path : String} (hRemove : t.removeFile path = .ok t') : t'.Rooted := by
  obtain ⟨l, hLocate, hNode, rfl⟩ := removeFile_eq_ok hRemove
  exact h.erase hNode

theorem renameFile (h : t.Rooted) {path target : String} (hRename : t.renameFile path target = .ok t') : t'.Rooted := by
  obtain ⟨l, goal, node, hSource, hTarget, hSome, hFile, hGoal, rfl⟩ := renameFile_eq_ok hRename
  have hNode : t.node? l ≠ some .directory := by
    rw [hSome]
    exact fun hIs => hFile (Option.some.inj hIs)
  have hErase := node?_erase (t := t) (ne_nil_of_node? hNode)
  rcases h.located hTarget with hDirectory | ⟨parent, last, rfl, hParent⟩
  · exact absurd hDirectory hGoal
  · -- removing the file leaves the directory of the target
    have hOther : parent ≠ l := by
      rintro rfl
      exact hNode hParent
    refine (h.erase hNode).put ?_ ?_ node
    · rw [hErase, if_neg hOther]
      exact hParent
    · rw [hErase]
      split
      · exact nofun
      · exact hGoal

end Rooted

end FileTree

end PlanReplay

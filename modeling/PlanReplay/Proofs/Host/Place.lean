import PlanReplay.Proofs.Host.Tree

/-!
# The files at places

A path leads to a place whether or not there is something on the way, and directories that are made do not move it.
What a change of a tree keeps is said with places, for all paths alike.

* `FileTree.placeOf`, `FileTree.fileAt` — where a path leads, and the file there.
* `FileTree.placeOf_path`, `FileTree.placeOf_join` — where the file in a directory is.
* `FileTree.placeOf_staging_ne`, `FileTree.placeOf_staging_injective` — where a file is prepared is neither the place of
  the file nor a place where another writer prepares one.
* `FileTree.KeepsBut` — what a change keeps, with one lemma for each operation.
-/

namespace PlanReplay

namespace FileTree

open PlanReplay.Path

-- ---------------------------------------------------------------------------
-- Where paths lead
-- ---------------------------------------------------------------------------

/-- Where a path leads, whatever is on the way. -/
def placeOf (t : FileTree) (path : String) : Location := arrive (t.startOf path) (names path)

/-- The file at a place, if there is one. A directory is none. -/
def fileAt (t : FileTree) (place : Location) : Option FileNode := (t.node? place).filter (· ≠ .directory)

variable {t : FileTree} {path : String}

theorem eq_placeOf {l : Location} (h : t.locate path = .ok l) : l = t.placeOf path := (locate_eq_ok.mp h).2.2

theorem fileAt_eq_some {place : Location} {node : FileNode} :
    t.fileAt place = some node ↔ t.node? place = some node ∧ node ≠ .directory := by
  rw [fileAt, Option.filter_eq_some_iff, decide_eq_true_iff]

/-- A file with a text is read at its path. -/
theorem readFile_of_fileAt {l : Location} {text : String} (h : t.locate path = .ok l)
    (hFile : t.fileAt (t.placeOf path) = some (.file text)) : t.readFile path = .ok text := by
  rw [← eq_placeOf h] at hFile
  rw [readFile, h]
  dsimp only
  rw [(fileAt_eq_some.mp hFile).1]

-- ---------------------------------------------------------------------------
-- Files in directories
-- ---------------------------------------------------------------------------

/-- What is joined to a directory is in it. -/
theorem placeOf_join (t : FileTree) (base : String) {name : String} (hSlash : '/' ∉ name.toList) (hName : IsProper name) :
    t.placeOf (join base name) = t.placeOf base ++ [name] := by
  have hStart : t.startOf (join base name) = t.startOf base := by
    obtain ⟨before, hText, hBefore⟩ := join_eq base hSlash
    by_cases hEmpty : base = ""
    · have hAlone : join base name = name := if_pos (Or.inr hEmpty)
      have hAbsolute : isAbsolute "" = false := by decide
      rw [hAlone, hEmpty, startOf, startOf, isAbsolute_of_name hSlash, hAbsolute]
    · obtain ⟨rest, rfl⟩ := hBefore hEmpty
      rw [hText, String.append_assoc, startOf, startOf, isAbsolute_append hEmpty]
  obtain ⟨before, hNames, hBefore⟩ := names_join base hSlash
  rw [placeOf, hStart, hNames, arrive_concat hName, placeOf]
  rcases hBefore with ⟨rfl, rfl⟩ | hSame | hEnd
  · rfl
  · rw [hSame]
  · rw [hEnd, arrive_append, arrive_cons, enter_of_self rfl]
    rfl

/-- A path leads from the directory of the file by the file's name. The root has no directory. -/
theorem placeOf_path (t : FileTree) (path : String) :
    (trimmed path = [""] ∧ t.placeOf path = []) ∨
      ∃ last, (trimmed path).getLast? = some last ∧ t.placeOf path = enter (t.placeOf (directory path)) last := by
  obtain ⟨first, rest, hNames⟩ := List.exists_cons_of_ne_nil (names_ne_nil path)
  have hFirst := trimmed_eq_cons hNames
  obtain ⟨before, last, hTrimmed⟩ := (List.eq_nil_or_concat (trimmed path)).resolve_left (hFirst ▸ List.cons_ne_nil _ _)
  rw [List.concat_eq_append] at hTrimmed
  have hBefore : (trimmed path).dropLast = before := by rw [hTrimmed, List.dropLast_concat]
  have hLast : (trimmed path).getLast? = some last := by rw [hTrimmed, List.getLast?_concat]
  have hPlace : t.placeOf path = enter (arrive (t.startOf path) before) last := by
    rw [placeOf, ← arrive_trimmed, hTrimmed, arrive_append]
    rfl
  cases before with
  | nil =>
    cases hAbsolute : isAbsolute path with
    | true =>
      -- there is nothing but slashes
      left
      obtain ⟨next, more, hRoot⟩ := isAbsolute_iff.mp hAbsolute
      rw [hFirst, (List.cons.inj (hNames.symm.trans hRoot)).1] at hTrimmed
      have hEmpty : last = "" := (List.cons.inj hTrimmed).1.symm
      refine ⟨by rw [hFirst, (List.cons.inj (hNames.symm.trans hRoot)).1, hTrimmed, hEmpty]; rfl, ?_⟩
      rw [hPlace, hEmpty, enter_of_self rfl, startOf, hAbsolute]
      rfl
    | false =>
      right
      have hHere : t.placeOf (directory path) = t.current := by
        unfold directory
        rw [hBefore]
        rfl
      refine ⟨last, hLast, ?_⟩
      rw [hPlace, hHere, startOf, hAbsolute]
      rfl
  | cons first' rest' =>
    right
    refine ⟨last, hLast, ?_⟩
    rw [hPlace, placeOf, startOf, startOf, isAbsolute_directory hBefore, arrive_directory hBefore, hBefore]

/-- A file is in its directory. -/
theorem placeOf_of_fileName {name : String} (h : fileName? path = some name) (t : FileTree) :
    t.placeOf path = t.placeOf (directory path) ++ [name] := by
  obtain ⟨hName, hProper⟩ := Option.filter_eq_some_iff.mp h
  rw [Bool.and_eq_true, Bool.not_eq_true', decide_eq_true_iff] at hProper
  rcases t.placeOf_path path with ⟨hRoot, -⟩ | ⟨last, hLast, hPlace⟩
  · rw [hRoot] at hName
    rw [← Option.some.inj hName] at hProper
    cases hProper.1
  · rw [hName] at hLast
    rw [hPlace, ← Option.some.inj hLast, enter_of_proper hProper]

/-- A path without a name of a file does not lead further down than the directory beside it. -/
theorem length_placeOf_of_no_fileName (h : fileName? path = none) (t : FileTree) :
    (t.placeOf path).length ≤ (t.placeOf (directory path)).length := by
  rcases t.placeOf_path path with ⟨-, hRoot⟩ | ⟨last, hLast, hPlace⟩
  · rw [hRoot]
    exact Nat.zero_le _
  · rw [hPlace]
    refine length_enter_of_not_proper ?_ _
    intro hProper
    rw [fileName?, hLast, Option.filter_some, if_pos (by simp [hProper.1, hProper.2])] at h
    cases h

-- ---------------------------------------------------------------------------
-- Where files are prepared
-- ---------------------------------------------------------------------------

/-- The name of the file at a path, or the one that stands for it. -/
def nameOf (path : String) : String := (fileName? path).getD "artifact"

theorem slash_not_mem_nameOf (path : String) : '/' ∉ (nameOf path).toList := by
  unfold nameOf
  cases hName : fileName? path with
  | none => decide
  | some name =>
    have hLast := (Option.filter_eq_some_iff.mp hName).1
    exact slash_not_mem_names ((prefix_trimmed path).mem (List.mem_of_getLast? hLast))

/-- A file is prepared in its directory. -/
theorem placeOf_staging (t : FileTree) (writer : Nat) (path : String) :
    t.placeOf (staging writer path) = t.placeOf (directory path) ++ [stagingName writer (nameOf path)] :=
  t.placeOf_join (directory path) (slash_not_mem_stagingName writer (slash_not_mem_nameOf path))
    (isProper_stagingName writer _)

/-- No file is prepared at its own place. -/
theorem placeOf_staging_ne (t : FileTree) (writer : Nat) (path : String) :
    t.placeOf (staging writer path) ≠ t.placeOf path := by
  rw [placeOf_staging]
  intro hSame
  cases hName : fileName? path with
  | none =>
    have hLength := length_placeOf_of_no_fileName hName t
    rw [← hSame, List.length_append, List.length_singleton] at hLength
    omega
  | some name =>
    rw [placeOf_of_fileName hName] at hSame
    have hNames : stagingName writer (nameOf path) = name := List.singleton_inj.mp (List.append_cancel_left hSame)
    have hLong := congrArg (fun text => text.toList.length) hNames
    rw [nameOf, hName, Option.getD_some, toList_stagingName] at hLong
    simp only [List.length_cons, List.length_append] at hLong
    omega

/-- Writers prepare files at places of their own. -/
theorem placeOf_staging_injective {t : FileTree} {writer writer' : Nat} {path path' : String}
    (h : t.placeOf (staging writer path) = t.placeOf (staging writer' path')) : writer = writer' := by
  rw [placeOf_staging, placeOf_staging] at h
  exact (stagingName_injective (List.singleton_inj.mp (List.append_inj' h rfl).2)).1

-- ---------------------------------------------------------------------------
-- What a change keeps
-- ---------------------------------------------------------------------------

/-- What a change of a tree keeps: the current directory, directories, and the files but at certain places. -/
structure KeepsBut (t t' : FileTree) (places : List Location) : Prop where
  current : t'.current = t.current
  directories : ∀ l, t.node? l = some .directory → t'.node? l = some .directory
  files : ∀ place ∉ places, t'.fileAt place = t.fileAt place

namespace KeepsBut

variable {t t' : FileTree} {places : List Location}

theorem refl (t : FileTree) (places : List Location) : t.KeepsBut t places := ⟨rfl, fun _ h => h, fun _ _ => rfl⟩

theorem placeOf (h : t.KeepsBut t' places) (path : String) : t'.placeOf path = t.placeOf path := by
  rw [FileTree.placeOf, FileTree.placeOf, startOf, startOf, h.current]

/-- A path that was found is still found. -/
theorem locate (h : t.KeepsBut t' places) {path : String} {l : Location} (hLocate : t.locate path = .ok l) :
    t'.locate path = .ok l := by
  obtain ⟨hPlain, hPass, rfl⟩ := locate_eq_ok.mp hLocate
  refine locate_eq_ok.mpr ⟨hPlain, ?_, (h.placeOf path).symm⟩
  have hWay : ∀ (here : Location) (names : List String), t.Passable here names → t'.Passable here names := by
    intro here names
    induction names generalizing here with
    | nil => exact fun _ => trivial
    | cons name rest ih => exact fun ⟨hHere, hShort, hRest⟩ => ⟨h.directories here hHere, hShort, ih _ hRest⟩
  rw [startOf, h.current]
  exact hWay _ _ hPass

end KeepsBut

/-- Putting a file where no directory is. -/
theorem keepsBut_put {l : Location} (hNode : t.node? l ≠ some .directory) (node : FileNode) :
    t.KeepsBut (t.put l node) [l] := by
  have hPut := node?_put (t := t) (ne_nil_of_node? hNode) node
  refine ⟨rfl, ?_, ?_⟩
  · intro l' hl'
    rw [hPut, if_neg fun hSame : l' = l => hNode (hSame ▸ hl')]
    exact hl'
  · intro place hPlace
    rw [fileAt, hPut, if_neg (List.mem_singleton.not.mp hPlace), fileAt]

theorem fileAt_put {l : Location} (hNode : t.node? l ≠ some .directory) {node : FileNode} (hFile : node ≠ .directory) :
    (t.put l node).fileAt l = some node := by
  rw [fileAt_eq_some, node?_put (ne_nil_of_node? hNode), if_pos rfl]
  exact ⟨rfl, hFile⟩

/-- Removing what is no directory. -/
theorem keepsBut_erase {l : Location} (hNode : t.node? l ≠ some .directory) :
    t.KeepsBut { t with nodes := t.nodes.erase l } [l] := by
  have hErase := node?_erase (t := t) (ne_nil_of_node? hNode)
  refine ⟨rfl, ?_, ?_⟩
  · intro l' hl'
    rw [hErase, if_neg fun hSame : l' = l => hNode (hSame ▸ hl')]
    exact hl'
  · intro place hPlace
    rw [fileAt, hErase, if_neg (List.mem_singleton.not.mp hPlace), fileAt]

/-- Making directories keeps all files. -/
theorem keepsBut_createAlong (t : FileTree) (here : Location) (made : Bool) (names : List String) :
    t.KeepsBut (t.createAlong here made names).2 [] := by
  have hEvolves := evolves_createAlong names (fun _ => False) t here made
  refine ⟨hEvolves.current, hEvolves.directories, ?_⟩
  intro place _
  unfold fileAt
  rcases hEvolves.nodes place with hSame | ⟨_, _, _, hFalse⟩ | ⟨hNone, hMade, -⟩
  · rw [hSame]
  · exact hFalse.elim
  · rw [hNone, hMade]
    rfl

theorem keepsBut_createDirectories (t : FileTree) (path : String) :
    t.KeepsBut (t.createDirectories path).2 [] := by
  unfold createDirectories
  split
  · exact .refl t []
  · split
    · exact .refl t []
    · exact keepsBut_createAlong t _ false _

variable {t' : FileTree} {target : String}

/-- Putting a file at a path keeps the other files. -/
theorem keepsBut_putFile {node : FileNode} (hFile : node ≠ .directory) (h : t.putFile path node = .ok t') :
    t.KeepsBut t' [t.placeOf path] ∧ t'.fileAt (t.placeOf path) = some node := by
  unfold putFile at h
  split at h
  · cases h
  · rename_i l hLocate
    split at h
    · cases h
    · rename_i hNode
      obtain rfl := Except.ok.inj h
      rw [← eq_placeOf hLocate]
      exact ⟨keepsBut_put hNode node, fileAt_put hNode hFile⟩

/-- Writing a file keeps the other files, and the file has the whole content. -/
theorem keepsBut_writeFile {content : String} (h : t.writeFile path content = .ok t') :
    t.KeepsBut t' [t.placeOf path] ∧ t'.fileAt (t.placeOf path) = some (.file content) := by
  have hFile : FileNode.file content ≠ .directory := nofun
  exact keepsBut_putFile hFile h

theorem keepsBut_removeFile (h : t.removeFile path = .ok t') : t.KeepsBut t' [t.placeOf path] := by
  obtain ⟨l, hLocate, hNode, rfl⟩ := removeFile_eq_ok h
  rw [← eq_placeOf hLocate]
  exact keepsBut_erase hNode

/-- Renaming a file keeps the other files, and takes the file from the one place to the other. -/
theorem keepsBut_renameFile (h : t.renameFile path target = .ok t') :
    t.KeepsBut t' [t.placeOf path, t.placeOf target] ∧
      t'.fileAt (t.placeOf target) = t.fileAt (t.placeOf path) ∧ ∃ l, t'.locate target = .ok l := by
  obtain ⟨l, goal, node, hSource, hTarget, hSome, hFile, hGoal, rfl⟩ := renameFile_eq_ok h
  have hNode : t.node? l ≠ some .directory := by
    rw [hSome]
    exact fun hIs => hFile (Option.some.inj hIs)
  have hErase := keepsBut_erase hNode
  have hFree : ({ t with nodes := t.nodes.erase l } : FileTree).node? goal ≠ some .directory := by
    rw [node?_erase (ne_nil_of_node? hNode)]
    split
    · exact nofun
    · exact hGoal
  have hPut := keepsBut_put hFree node
  rw [← eq_placeOf hSource, ← eq_placeOf hTarget]
  refine ⟨⟨rfl, fun l' hl' => hPut.directories l' (hErase.directories l' hl'), ?_⟩, ?_, goal, ?_⟩
  · intro place hPlace
    rw [List.mem_cons, not_or] at hPlace
    rw [hPut.files place hPlace.2, hErase.files place (List.mem_singleton.not.mpr hPlace.1)]
  · rw [fileAt_put hFree hFile, eq_comm, fileAt_eq_some]
    exact ⟨hSome, hFile⟩
  · exact hPut.locate (hErase.locate hTarget)

end FileTree

end PlanReplay

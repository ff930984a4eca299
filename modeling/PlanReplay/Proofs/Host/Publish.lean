import PlanReplay.Host.Machine
import PlanReplay.Host.Publish
import PlanReplay.Proofs.Host.Tree

/-!
# Running scripts and publishing files

A script runs by its host's replies. No reply of a machine breaks its file tree. What publishing a file can do is
said once, as the four ways in which it can end.

* `Machine.rooted_reply` — whatever lies in a tree lies in a directory, after every request.
* `Machine.PublishRun`, `Machine.publish_run` — the ways in which publishing a file ends.
* `Machine.publish_evolves` — besides directories, only the file and the one that prepares it may change.
* `Machine.nodeAt?_of_publish` — a file that is published has the content.
-/

namespace PlanReplay

-- ---------------------------------------------------------------------------
-- Running scripts
-- ---------------------------------------------------------------------------

namespace Script

variable {τ υ : Type}

@[simp] theorem runOn_bind (script : Script τ) (next : τ → Script υ) (m : Machine) :
    (script >>= next).runOn m = (next (script.runOn m).1).runOn (script.runOn m).2 :=
  run_bind _ _ _ _

@[simp] theorem runOn_request (r : Request) (m : Machine) : (request r).runOn m = Machine.reply r m := rfl

@[simp] theorem runOn_pure (result : τ) (m : Machine) : (pure result : Script τ).runOn m = (result, m) := rfl

end Script

namespace Machine

/-- No request breaks the tree of a machine. -/
theorem rooted_reply {m : Machine} (h : m.tree.Rooted) (r : Request) : (reply r m).2.tree.Rooted := by
  cases r with
  | canonicalPath | isFile | pathExists | readFile | askPlanner | print | now | pause => exact h
  | createDirectories path => exact h.createDirectories path
  | writeFile path content =>
    unfold reply change
    dsimp only
    split
    · rename_i hWrite
      exact h.writeFile hWrite
    · exact h
  | renameFile source target =>
    unfold reply change
    dsimp only
    split
    · rename_i hRename
      exact h.renameFile hRename
    · exact h
  | removeFile path =>
    unfold reply change
    dsimp only
    split
    · rename_i hRemove
      exact h.removeFile hRemove
    · exact h

/-- What every reply keeps, a script keeps. -/
theorem rooted_runOn {τ : Type} (script : Script τ) {m : Machine} (h : m.tree.Rooted) :
    (script.runOn m).2.tree.Rooted := by
  induction script generalizing m with
  | done result => exact h
  | ask r next ih => exact ih _ (rooted_reply h r)

-- ---------------------------------------------------------------------------
-- Publishing
-- ---------------------------------------------------------------------------

/-- The machine after what was prepared is removed, if it is there. -/
def discard (m : Machine) (path : String) : Machine := (reply (.removeFile path) m).2

/-- The ways in which publishing a file can end. -/
inductive PublishRun (writer : Nat) (path content : String) (m : Machine) : Except FileError Unit × Machine → Prop where
  | blocked {error : FileError} {t : FileTree}
      (hMade : m.tree.createDirectories (Path.directory path) = (.error error, t)) :
      PublishRun writer path content m (.error error, { m with tree := t })
  | unwritten {error : FileError} {t : FileTree}
      (hMade : m.tree.createDirectories (Path.directory path) = (.ok (), t))
      (hWrite : t.writeFile (Path.staging writer path) content = .error error) :
      PublishRun writer path content m
        (.error error, ({ m with tree := t } : Machine).discard (Path.staging writer path))
  | unnamed {error : FileError} {t t' : FileTree}
      (hMade : m.tree.createDirectories (Path.directory path) = (.ok (), t))
      (hWrite : t.writeFile (Path.staging writer path) content = .ok t')
      (hRename : t'.renameFile (Path.staging writer path) path = .error error) :
      PublishRun writer path content m
        (.error error, ({ m with tree := t' } : Machine).discard (Path.staging writer path))
  | published {t t' t'' : FileTree}
      (hMade : m.tree.createDirectories (Path.directory path) = (.ok (), t))
      (hWrite : t.writeFile (Path.staging writer path) content = .ok t')
      (hRename : t'.renameFile (Path.staging writer path) path = .ok t'') :
      PublishRun writer path content m (.ok (), { m with tree := t'' })

theorem publish_run (writer : Nat) (path content : String) (m : Machine) :
    PublishRun writer path content m ((publish writer path content).runOn m) := by
  unfold publish
  rw [Script.runOn_bind, Script.runOn_request]
  cases hMade : m.tree.createDirectories (Path.directory path) with
  | mk outcome t =>
    have hCreate : reply (.createDirectories (Path.directory path)) m = (outcome, { m with tree := t }) := by
      rw [reply, hMade]
    rw [hCreate]
    cases outcome with
    | error error => exact .blocked hMade
    | ok done =>
      dsimp only
      rw [Script.runOn_bind, Script.runOn_request]
      cases hWrite : t.writeFile (Path.staging writer path) content with
      | error error =>
        have hReply : reply (.writeFile (Path.staging writer path) content) { m with tree := t } =
            (.error error, { m with tree := t }) := by
          rw [reply, hWrite, change]
        rw [hReply]
        simp only [Script.runOn_bind, Script.runOn_pure]
        rw [Script.runOn_request]
        exact .unwritten hMade hWrite
      | ok t' =>
        have hReply : reply (.writeFile (Path.staging writer path) content) { m with tree := t } =
            (.ok (), { m with tree := t' }) := by
          rw [reply, hWrite, change]
        rw [hReply]
        dsimp only
        rw [Script.runOn_bind, Script.runOn_request]
        cases hRename : t'.renameFile (Path.staging writer path) path with
        | error error =>
          have hReply : reply (.renameFile (Path.staging writer path) path) { m with tree := t' } =
              (.error error, { m with tree := t' }) := by
            rw [reply, hRename, change]
          rw [hReply]
          dsimp only
          rw [Script.runOn_bind, Script.runOn_request]
          exact .unnamed hMade hWrite hRename
        | ok t'' =>
          have hReply : reply (.renameFile (Path.staging writer path) path) { m with tree := t' } =
              (.ok (), { m with tree := t'' }) := by
            rw [reply, hRename, change]
          rw [hReply]
          exact .published hMade hWrite hRename

/-- Discarding what was prepared removes that file at most. -/
theorem discard_evolves (m : Machine) {path name : String} {before : List String}
    (hNames : Path.names path = before ++ [name]) (hName : Path.IsProper name) {isFile : String → Prop}
    (hFile : isFile name) (isMade : Location → Prop) :
    ∃ t, m.discard path = { m with tree := t } ∧ m.tree.Evolves t isFile isMade := by
  unfold discard reply change
  dsimp only
  split
  · rename_i hRemove
    exact ⟨_, rfl, FileTree.evolves_removeFile hNames hName hFile isMade hRemove⟩
  · exact ⟨m.tree, rfl, .refl _ _ _⟩

end Machine

namespace Machine

variable {writer : Nat} {path name content : String} {before : List String} {m : Machine}

/-- The names of the files that publishing one puts or removes. -/
def IsFileFor (writer : Nat) (name other : String) : Prop := other = name ∨ other = Path.stagingName writer name

/-- The directories that publishing a file may make. -/
def IsMadeFor (m : Machine) (path : String) (l : Location) : Prop :=
  l ∈ Path.walk (m.tree.startOf (Path.directory path)) (Path.names (Path.directory path))

/-- Publishing a file changes the tree alone, and there the file and the one that prepares it, besides directories. -/
theorem publish_evolves (m : Machine) (writer : Nat) (content : String) (hNames : Path.names path = before ++ [name])
    (hName : Path.IsProper name) :
    ∃ t, ((publish writer path content).runOn m).2 = { m with tree := t } ∧
      m.tree.Evolves t (IsFileFor writer name) (m.IsMadeFor path) := by
  obtain ⟨before', hStaging⟩ := Path.names_staging writer hNames hName
  have hProper := Path.isProper_stagingName writer name
  have hIsFile : IsFileFor writer name (Path.stagingName writer name) := Or.inr rfl
  have hCreate : m.tree.Evolves (m.tree.createDirectories (Path.directory path)).2 (IsFileFor writer name)
      (m.IsMadeFor path) :=
    m.tree.evolves_createDirectories (Path.directory path) _
  have hWritten : ∀ {t t' : FileTree}, t.writeFile (Path.staging writer path) content = .ok t' →
      t.Evolves t' (IsFileFor writer name) (m.IsMadeFor path) := fun hWrite =>
    FileTree.evolves_writeFile hStaging hProper hIsFile _ hWrite
  have hRun := publish_run writer path content m
  generalize (publish writer path content).runOn m = result at hRun
  cases hRun with
  | blocked hMade =>
    rw [hMade] at hCreate
    exact ⟨_, rfl, hCreate⟩
  | @unwritten error t hMade hWrite =>
    rw [hMade] at hCreate
    obtain ⟨last, hSame, hDiscard⟩ := discard_evolves { m with tree := t } hStaging hProper hIsFile (m.IsMadeFor path)
    refine ⟨last, ?_, hCreate.trans hDiscard⟩
    dsimp only
    rw [hSame]
  | @unnamed error t t' hMade hWrite hRename =>
    rw [hMade] at hCreate
    obtain ⟨last, hSame, hDiscard⟩ := discard_evolves { m with tree := t' } hStaging hProper hIsFile (m.IsMadeFor path)
    refine ⟨last, ?_, (hCreate.trans (hWritten hWrite)).trans hDiscard⟩
    dsimp only
    rw [hSame]
  | @published t t' t'' hMade hWrite hRename =>
    rw [hMade] at hCreate
    have hRenamed : t'.Evolves t'' (IsFileFor writer name) (m.IsMadeFor path) :=
      FileTree.evolves_renameFile hStaging hProper hNames hName hIsFile (Or.inl rfl) _ hRename
    exact ⟨_, rfl, (hCreate.trans (hWritten hWrite)).trans hRenamed⟩

/-- A file that is published is found at its path, with its content. -/
theorem nodeAt?_of_publish (hNames : Path.names path = before ++ [name]) (hName : Path.IsProper name)
    (h : ((publish writer path content).runOn m).1 = .ok ()) :
    ((publish writer path content).runOn m).2.tree.nodeAt? path = some (.file content) := by
  have hRun := publish_run writer path content m
  generalize (publish writer path content).runOn m = result at hRun h ⊢
  cases hRun with
  | blocked | unwritten | unnamed => cases h
  | @published t t' t'' hMade hWrite hRename =>
    obtain ⟨before', hStaging⟩ := Path.names_staging writer hNames hName
    have hProper := Path.isProper_stagingName writer name
    dsimp only
    rw [FileTree.nodeAt?_renameFile hStaging hProper hNames hName hRename,
      FileTree.nodeAt?_writeFile hStaging hProper hWrite]

end Machine

end PlanReplay

import PlanReplay.Proofs.Host.Publishing

/-!
# Files are replaced at once

Processes with different numbers publish texts at the same path, in any order of their requests, and any request may
fail. Whoever looks at the path at any moment finds what was there at first or one of the texts, whole.

* `publishers_disciplined` — processes that publish at one path keep the law of publishing.
* `publish_atomic` — what is at the path, what a process has done that has published its text, and what one has not
  done that has failed.
-/

namespace PlanReplay

open Shared

variable {ι : Type} {writer : ι → Nat}

/-- Processes that each publish a text at one path. -/
def publishers (m : Machine) (writer : ι → Nat) (path : String) (content : ι → String) :
    Shared ι (Except FileError Unit) :=
  ⟨m, fun i => publish (writer i) path (content i)⟩

/-- Such processes publish their own texts at the path. They ask no planner. -/
def publishesAt (path : String) (content : ι → String) (i : ι) : Permission where
  publish _ path' text := path' = path ∧ text = content i
  ask _ _ := False

theorem publishers_disciplined (m : Machine) (hWriter : Function.Injective writer) (path : String)
    (content : ι → String) :
    Disciplined writer (publishesAt path content) (fun i => Published (writer i) path)
      (publishers m writer path content) := by
  refine ⟨hWriter, ?_, ?_⟩
  · intro i j past past' path₁ path₂ text₁ text₂ hMay₁ hMay₂ t k
    rw [hMay₁.1, hMay₂.1]
    exact t.placeOf_staging_ne k path
  · intro i
    have hMay : ∀ own, (publishesAt path content i).publish ([] ++ own) path (content i) := fun _ => ⟨rfl, rfl⟩
    refine (publish_obeys hMay).mono ?_
    rintro later outcome ⟨own, rfl, hEnd⟩
    exact hEnd

/--
**Files are replaced at once.** Processes with different numbers publish texts at one path, in any order of their
requests, and any request may fail. In every state of a run the file at the path is the one that was there at first, or
the text of the process that has renamed its file last, which can be read there. A process that ends well has put its
text at the path. A process that ends with an error has never changed the file at the path. No process ever changes the
file in which another one prepares its text.
-/
theorem publish_atomic [DecidableEq ι] (hWriter : Function.Injective writer) (path : String) (content : ι → String) (m : Machine)
    {moments : List (Moment ι)} {s : Shared ι (Except FileError Unit)}
    (hRun : (publishers m writer path content).Run moments s) :
    let place := m.tree.placeOf path
    ((publisher? path moments = none ∧ s.machine.tree.fileAt place = m.tree.fileAt place) ∨
      ∃ i, publisher? path moments = some i ∧ s.machine.tree.fileAt place = some (.file (content i)) ∧
        s.machine.tree.readFile path = .ok (content i)) ∧
    (∀ i, (s.scripts i).result? = some (.ok ()) →
      ∃ moment ∈ moments, moment.process = i ∧ moment.after.tree.readFile path = .ok (content i)) ∧
    (∀ i error, (s.scripts i).result? = some (.error error) →
      ∀ moment ∈ moments, moment.process = i → moment.after.tree.fileAt place = moment.before.tree.fileAt place) ∧
    ∀ moment ∈ moments, ∀ i, i ≠ moment.process →
      let prepared := m.tree.placeOf (Path.staging (writer i) path)
      moment.after.tree.fileAt prepared = moment.before.tree.fileAt prepared := by
  intro place
  have hDisciplined := publishers_disciplined m hWriter path content
  have hPlace : s.machine.tree.placeOf path = place := hDisciplined.placeOf hRun path
  refine ⟨?_, ?_, ?_, ?_⟩
  · have hHolds : HoldsLast path (m.tree.fileAt place) content s.machine.tree (publisher? path moments) :=
      hDisciplined.holdsLast hRun (fun i => ⟨[], rfl, rfl⟩) fun _ _ _ _ hMay => Or.inl hMay
    have hFile := hHolds.file
    rw [hPlace] at hFile
    cases hLast : publisher? path moments with
    | none =>
      rw [hLast] at hFile
      exact Or.inl ⟨rfl, hFile⟩
    | some i =>
      rw [hLast] at hHolds hFile
      exact Or.inr ⟨i, rfl, hFile, hHolds.readFile⟩
  · intro i hResult
    have hEnd : (history i moments).getLast? = some (.renamed (writer i) path) := hRun.ending hDisciplined.obeys hResult
    obtain ⟨moment, hMem, hProcess, past, text, ⟨-, rfl⟩, hRead⟩ :=
      hDisciplined.exists_published hRun (List.mem_of_getLast? hEnd)
    exact ⟨moment, hMem, hProcess, hRead⟩
  · rintro i error hResult moment hMem rfl
    have hEnd : .renamed (writer moment.process) path ∉ history moment.process moments :=
      hRun.ending hDisciplined.obeys hResult
    exact hDisciplined.keeps_of_not_renamed hRun (fun _ _ _ hMay => hMay.1) hEnd hMem
  · intro moment hMem i hOther
    have hMay : (publishesAt path content i).publish [] path (content i) := ⟨rfl, rfl⟩
    exact hDisciplined.keeps_staged hRun hMem hOther hMay

/-- Of two processes that take turns one finds a directory where it would prepare its text and fails, and the other one
replaces the file. -/
theorem publish_atomic_beside_failure :
    let nodes : OrderedMap Location FileNode :=
      ((OrderedMap.empty.insert ["home"] .directory).insert ["home", "a"] (.file "old")).insert
        ["home", ".a.8.tmp"] .directory
    let m := Machine.fresh ⟨[], nodes⟩ fun _ _ => .error (.unavailable "")
    let first := publishers m (fun second : Bool => cond second 8 7) "home/a" fun second => cond second "second" "first"
    let s := first.play [false, true, false, true, true, false]
    (s.scripts false).result? = some (.ok ()) ∧ (s.scripts true).result? = some (.error .isDirectory) ∧
      ∃ moments, first.Run moments s ∧
        (∃ moment ∈ moments, moment.process = false ∧ moment.after.tree.readFile "home/a" = .ok "first") ∧
        ∀ moment ∈ moments, moment.process = true →
          moment.after.tree.fileAt ["home", "a"] = moment.before.tree.fileAt ["home", "a"] := by
  intro nodes m first s
  have hFirst : (s.scripts false).result? = some (.ok ()) := by decide +kernel
  have hSecond : (s.scripts true).result? = some (.error .isDirectory) := by decide +kernel
  have hPlace : m.tree.placeOf "home/a" = ["home", "a"] := by decide
  have hWriter : Function.Injective fun second : Bool => cond second 8 7 := fun a b => by
    revert a b
    decide
  have hRuns : ∃ moments, first.Run moments s := run_play first _
  obtain ⟨moments, hRun⟩ := hRuns
  obtain ⟨-, hDone, hFailed, -⟩ := publish_atomic hWriter "home/a" (fun second => cond second "second" "first") m hRun
  rw [hPlace] at hFailed
  exact ⟨hFirst, hSecond, moments, hRun, hDone false hFirst, hFailed true .isDirectory hSecond⟩

end PlanReplay

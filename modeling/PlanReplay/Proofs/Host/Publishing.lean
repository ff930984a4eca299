import PlanReplay.Host.Publish
import PlanReplay.Proofs.Host.Interleaving

/-!
# Processes that publish files

Processes that change no files but by publishing texts, each under a number of its own, do not get in each other's way:
what one of them has prepared stays as it is until it is published.

* `Publishing` — what such a process may ask for; `publish_obeys` — publishing a text is within this law.
* `FileChange`, `Shared.Step.change` — what may happen to the files at one moment, said once.
* `Shared.Staged`, `Shared.Step.staged` — what was prepared is there until it is published.
* `Shared.Disciplined.change`, `Shared.Disciplined.change_of_mem` — the same in every run.
* `Shared.Disciplined.exists_published`, `Shared.Disciplined.keeps_of_not_renamed`, `Shared.Disciplined.keeps_staged` —
  what a process has done that has published, and what it has not done.
* `HoldsLast`, `Shared.Disciplined.holdsLast` — whose text is at a path.
* `Shared.Disciplined.origin` — where the file at a path comes from.
-/

namespace PlanReplay

-- ---------------------------------------------------------------------------
-- The law
-- ---------------------------------------------------------------------------

/-- A request that changes no file, and asks no planner. -/
def Request.IsQuiet : Request → Prop
  | .writeFile _ _ | .renameFile _ _ | .removeFile _ | .askPlanner _ => False
  | _ => True

/-- What a process may publish, and what it may ask a planner, after what went before. -/
structure Permission where
  publish : List Exchange → String → String → Prop
  ask : List Exchange → PlannerCall → Prop

/-- The end of publishing a file: the file that was prepared gets its name. -/
def Exchange.renamed (writer : Nat) (path : String) : Exchange := ⟨.renameFile (Path.staging writer path) path, .ok ()⟩

/-- The path that an exchange has put a file at under a new name. -/
def Exchange.target? : Exchange → Option String
  | ⟨.renameFile _ target, .ok ()⟩ => some target
  | _ => none

/-- What a process may ask for, after what went before, if it changes no files but by publishing the texts that it may
publish: a text is prepared once its directory is there, and named once it was prepared. -/
inductive Publishing (writer : Nat) (may : Permission) (past : List Exchange) : Request → Prop where
  | quiet {r : Request} (hQuiet : r.IsQuiet) : Publishing writer may past r
  | ask {call : PlannerCall} (hMay : may.ask past call) : Publishing writer may past (.askPlanner call)
  | prepare {path content : String} (hMay : may.publish past path content)
      (hLast : past.getLast? = some ⟨.createDirectories (Path.directory path), .ok ()⟩) :
      Publishing writer may past (.writeFile (Path.staging writer path) content)
  | name {path content : String} (hMay : may.publish past path content)
      (hLast : past.getLast? = some ⟨.writeFile (Path.staging writer path) content, .ok ()⟩) :
      Publishing writer may past (.renameFile (Path.staging writer path) path)
  | discard {path content : String} (hMay : may.publish past path content) :
      Publishing writer may past (.removeFile (Path.staging writer path))

/-- How publishing a file ends, after its own exchanges: with the file named, or without naming it. -/
def Published (writer : Nat) (path : String) (own : List Exchange) : Except FileError Unit → Prop
  | .ok () => own.getLast? = some (.renamed writer path)
  | .error _ => .renamed writer path ∉ own

variable {writer : Nat} {path content : String} {may : Permission}

/-- Publishing a text is within the law, and ends as it should. -/
theorem publish_obeys {past : List Exchange} (hMay : ∀ own, may.publish (past ++ own) path content) :
    (publish writer path content).Obeys (Publishing writer may)
      (fun later outcome => ∃ own, later = past ++ own ∧ Published writer path own outcome) past := by
  have hOne := fun e => hMay [e]
  have hTwo : ∀ e e', may.publish (past ++ [e] ++ [e']) path content := fun e e' => by
    rw [List.append_assoc]
    exact hMay _
  have hThree : ∀ e e' e'', may.publish (past ++ [e] ++ [e'] ++ [e'']) path content := fun e e' e'' => by
    rw [List.append_assoc, List.append_assoc]
    exact hMay _
  unfold publish
  refine Script.obeys_request (.quiet trivial) ?_
  rintro (error | ⟨⟩)
  · exact ⟨_, rfl, by simp [Published, Exchange.renamed]⟩
  · refine Script.Obeys.bind (Script.obeys_request (.prepare (hOne _) List.getLast?_concat) ?_)
    rintro (error | ⟨⟩)
    · refine Script.obeys_request (.discard (hTwo _ _)) fun _ => ?_
      exact ⟨_, by rw [List.append_assoc, List.append_assoc], by simp [Published, Exchange.renamed]⟩
    · refine Script.obeys_request (r := .renameFile _ _) (.name (hTwo _ _) List.getLast?_concat) ?_
      rintro (error | ⟨⟩)
      · refine Script.obeys_request (.discard (hThree _ _ _)) fun _ => ?_
        exact ⟨_, by rw [List.append_assoc, List.append_assoc, List.append_assoc], by simp [Published, Exchange.renamed]⟩
      · exact ⟨_, by rw [List.append_assoc, List.append_assoc], by simp [Published, Exchange.renamed]⟩

-- ---------------------------------------------------------------------------
-- What happens at one moment
-- ---------------------------------------------------------------------------

theorem Request.IsQuiet.touched {r : Request} (h : r.IsQuiet) (given : r.Reply) (t : FileTree) :
    Exchange.touched t ⟨r, given⟩ = [] := by
  cases r with
  | writeFile | renameFile | removeFile | askPlanner => exact h.elim
  | _ => rfl

theorem Request.IsQuiet.underWay {r : Request} (h : r.IsQuiet) (t : FileTree) : r.underWay t = [] := by
  cases r with
  | writeFile => exact h.elim
  | _ => rfl

theorem Request.IsQuiet.target {r : Request} (h : r.IsQuiet) (given : r.Reply) :
    Exchange.target? ⟨r, given⟩ = none := by
  cases r with
  | writeFile | renameFile | removeFile | askPlanner => exact h.elim
  | _ => rfl

/-- What a process that publishes may do to the files at one moment: nothing, or something to a file that prepares a
text, or it publishes a text, whole. -/
inductive FileChange (writer : Nat) (may : Permission) (past : List Exchange) (m m' : Machine) :
    Option Exchange → Prop where
  | quiet {e : Option Exchange} (hTarget : e.bind Exchange.target? = none) (hKeeps : m.tree.KeepsBut m'.tree []) :
      FileChange writer may past m m' e
  | prepared {e : Option Exchange} {path content : String} (hTarget : e.bind Exchange.target? = none)
      (hMay : may.publish past path content)
      (hKeeps : m.tree.KeepsBut m'.tree [m.tree.placeOf (Path.staging writer path)]) : FileChange writer may past m m' e
  | published {path content : String} (hMay : may.publish past path content)
      (hKeeps : m.tree.KeepsBut m'.tree [m.tree.placeOf (Path.staging writer path), m.tree.placeOf path])
      (hFile : m'.tree.fileAt (m.tree.placeOf path) = some (.file content)) (hFound : ∃ l, m'.tree.locate path = .ok l) :
      FileChange writer may past m m' (some (.renamed writer path))

theorem FileChange.keepsBut {past : List Exchange} {k : Nat} {law : Permission} {m m' : Machine}
    {e : Option Exchange} (h : FileChange k law past m m' e) : ∃ places, m.tree.KeepsBut m'.tree places := by
  cases h with
  | quiet _ hKeeps | prepared _ _ hKeeps | published _ hKeeps _ _ => exact ⟨_, hKeeps⟩

section Processes

variable {ι : Type} {writer : ι → Nat} {may : ι → Permission}

/-- No text is published where one is prepared. -/
def Apart (may : ι → Permission) : Prop :=
  ∀ ⦃i j past past' path path' text text'⦄, (may i).publish past path text → (may j).publish past' path' text' →
    ∀ (t : FileTree) (k : Nat), t.placeOf (Path.staging k path) ≠ t.placeOf path'

/-- What was prepared by another process stays as it is. -/
theorem FileChange.keeps_staged {past past' : List Exchange} {i j : ι} {m m' : Machine} {e : Option Exchange}
    {path text : String} (hWriter : Function.Injective writer) (hApart : Apart may)
    (h : FileChange (writer i) (may i) past m m' e) (hOther : j ≠ i) (hMay : (may j).publish past' path text) :
    m'.tree.fileAt (m.tree.placeOf (Path.staging (writer j) path)) =
      m.tree.fileAt (m.tree.placeOf (Path.staging (writer j) path)) := by
  have hStaging : ∀ path', m.tree.placeOf (Path.staging (writer j) path) ≠ m.tree.placeOf (Path.staging (writer i) path') :=
    fun path' hSame => hOther (hWriter (FileTree.placeOf_staging_injective hSame))
  cases h with
  | quiet _ hKeeps => exact hKeeps.files _ (List.not_mem_nil)
  | prepared _ hMay' hKeeps => exact hKeeps.files _ (List.mem_singleton.not.mpr (hStaging _))
  | published hMay' hKeeps _ _ =>
    refine hKeeps.files _ ?_
    rw [List.mem_cons, List.mem_singleton, not_or]
    exact ⟨hStaging _, hApart hMay hMay' _ _⟩

/-- The process that has named a file at a path last. -/
def publisher? (path : String) (moments : List (Moment ι)) : Option ι :=
  (moments.filter fun moment => moment.exchange?.bind Exchange.target? = some path).getLast?.map Moment.process

theorem publisher?_concat (path : String) (moments : List (Moment ι)) (moment : Moment ι) :
    publisher? path (moments ++ [moment]) =
      if moment.exchange?.bind Exchange.target? = some path then some moment.process else publisher? path moments := by
  unfold publisher?
  rw [List.filter_append]
  split
  · rename_i hTarget
    rw [List.filter_cons_of_pos (by simpa using hTarget), List.filter_nil, List.getLast?_concat]
    rfl
  · rename_i hOther
    rw [List.filter_cons_of_neg (by simpa using hOther), List.filter_nil, List.append_nil]

/-- Where a file was named at a path, some process was the last to do so. -/
theorem exists_publisher {path : String} {moments : List (Moment ι)} {moment : Moment ι} (hMem : moment ∈ moments)
    (hTarget : moment.exchange?.bind Exchange.target? = some path) : ∃ i, publisher? path moments = some i := by
  have hFilter : moment ∈ moments.filter fun moment => moment.exchange?.bind Exchange.target? = some path :=
    List.mem_filter.mpr ⟨hMem, decide_eq_true hTarget⟩
  unfold publisher?
  rw [List.getLast?_eq_some_getLast (List.ne_nil_of_mem hFilter)]
  exact ⟨_, rfl⟩

/-- The file at a path is the text of the process that was last to publish there, or else what was there before. -/
structure HoldsLast (path : String) (before : Option FileNode) (text : ι → String) (t : FileTree) (last : Option ι) :
    Prop where
  file : t.fileAt (t.placeOf path) = last.elim before fun i => some (.file (text i))
  found : last.isSome → ∃ l, t.locate path = .ok l

variable {path : String} {before : Option FileNode} {text : ι → String} {t t' : FileTree} {last : Option ι}

theorem HoldsLast.keeps {places : List Location} (h : HoldsLast path before text t last) (hKeeps : t.KeepsBut t' places)
    (hPlace : t.placeOf path ∉ places) : HoldsLast path before text t' last := by
  refine ⟨?_, ?_⟩
  · rw [hKeeps.placeOf, hKeeps.files _ hPlace]
    exact h.file
  · intro hSome
    obtain ⟨l, hLocate⟩ := h.found hSome
    exact ⟨l, hKeeps.locate hLocate⟩

/-- What was published last is read. -/
theorem HoldsLast.readFile {i : ι} (h : HoldsLast path before text t (some i)) : t.readFile path = .ok (text i) := by
  obtain ⟨l, hLocate⟩ := h.found rfl
  exact FileTree.readFile_of_fileAt hLocate h.file

end Processes

namespace Shared

variable {ι τ : Type} [DecidableEq ι] {writer : ι → Nat} {may : ι → Permission}
  {ending : ι → List Exchange → τ → Prop}

/-- What was prepared is there: the file that a process has written last holds what was written. -/
def Staged (writer : ι → Nat) (may : ι → Permission) (m : Machine)
    (moments : List (Moment ι)) : Prop :=
  ∀ i source content, (history i moments).getLast? = some ⟨.writeFile source content, .ok ()⟩ →
    m.tree.fileAt (m.tree.placeOf source) = some (.file content) ∧
      ∃ past path text, source = Path.staging (writer i) path ∧ (may i).publish past path text

variable {s s' : Shared ι τ} {moments : List (Moment ι)} {moment : Moment ι}

/-- What may happen next to the files, if the processes are within the law so far. -/
theorem Step.change (hStep : s.Step moment s')
    (hObeys : ∀ i, (s.scripts i).Obeys (Publishing (writer i) (may i)) (ending i) (history i moments))
    (hStaged : Staged writer may s.machine moments) :
    FileChange (writer moment.process) (may moment.process) (history moment.process moments) moment.before moment.after
      moment.exchange? := by
  cases hStep with
  | @work i r next m hAsk hWork =>
    have hKeeps := hWork.keepsBut
    have hLaw := hObeys i
    rw [hAsk] at hLaw
    cases hLaw.1 with
    | quiet hQuiet =>
      rw [hQuiet.underWay] at hKeeps
      exact .quiet rfl hKeeps
    | prepare hMay hLast => exact .prepared rfl hMay hKeeps
    | ask | name | discard => exact .quiet rfl hKeeps
  | @answer i r next given m hAsk hAnswer =>
    have hKeeps := hAnswer.keepsBut
    have hLaw := hObeys i
    rw [hAsk] at hLaw
    cases hLaw.1 with
    | quiet hQuiet =>
      rw [hQuiet.touched] at hKeeps
      exact .quiet (hQuiet.target given) hKeeps
    | ask => exact .quiet rfl hKeeps
    | prepare hMay hLast =>
      cases given with
      | error error => exact .quiet rfl hKeeps
      | ok done => exact .prepared rfl hMay hKeeps
    | @name path content hMay hLast =>
      cases given with
      | error error => exact .quiet rfl hKeeps
      | ok done =>
        obtain ⟨hFile, hFound⟩ := hAnswer.renamed
        exact .published hMay hKeeps (hFile.trans (hStaged i _ content hLast).1) hFound
    | discard hMay =>
      cases given with
      | error error => exact .quiet rfl hKeeps
      | ok done => exact .prepared rfl hMay hKeeps

theorem Step.before (h : s.Step moment s') : moment.before = s.machine := by
  cases h <;> rfl

theorem Step.after (h : s.Step moment s') : moment.after = s'.machine := by
  cases h <;> rfl

/-- What was prepared is there after the next moment as well. -/
theorem Step.staged (hStep : s.Step moment s') (hWriter : Function.Injective writer) (hApart : Apart may)
    (hObeys : ∀ i, (s.scripts i).Obeys (Publishing (writer i) (may i)) (ending i) (history i moments))
    (hStaged : Staged writer may s.machine moments) : Staged writer may s'.machine (moments ++ [moment]) := by
  have hChange := hStep.change hObeys hStaged
  rw [hStep.before, hStep.after] at hChange
  obtain ⟨places, hKept⟩ := hChange.keepsBut
  intro j source content hLast
  rw [history_concat] at hLast
  rw [hKept.placeOf]
  by_cases hOwn : moment.process = j
  · rw [if_pos hOwn] at hLast
    cases hStep with
    | @work i r next m hAsk hWork =>
      -- a process is not at work on a file right after it has written one
      obtain rfl : i = j := hOwn
      rw [Option.toList_none, List.append_nil] at hLast
      obtain ⟨hFile, hMay⟩ := hStaged i source content hLast
      refine ⟨?_, hMay⟩
      have hKeeps := hWork.keepsBut
      have hLaw := hObeys i
      rw [hAsk] at hLaw
      have hNone : r.underWay s.machine.tree = [] := by
        cases hLaw.1 with
        | quiet hQuiet => exact hQuiet.underWay _
        | prepare hMay' hMade =>
          rw [hLast] at hMade
          cases hMade
        | ask | name | discard => rfl
      rw [hNone] at hKeeps
      rw [← hFile]
      exact hKeeps.files _ List.not_mem_nil
    | @answer i r next given m hAsk hAnswer =>
      obtain rfl : i = j := hOwn
      rw [Option.toList_some, List.getLast?_concat, Option.some_inj] at hLast
      have hLaw := hObeys i
      rw [hAsk] at hLaw
      cases hLaw.1 with
      | quiet hQuiet =>
        cases hLast
        exact hQuiet.elim
      | @prepare path text hMay hMade =>
        cases hLast
        exact ⟨hAnswer.written, _, path, _, rfl, hMay⟩
      | ask | name | discard => cases hLast
  · rw [if_neg hOwn, List.append_nil] at hLast
    obtain ⟨hFile, past, path, text, rfl, hMay⟩ := hStaged j source content hLast
    refine ⟨?_, past, path, text, rfl, hMay⟩
    rw [← hFile]
    exact hChange.keeps_staged hWriter hApart (Ne.symm hOwn) hMay

-- ---------------------------------------------------------------------------
-- Runs
-- ---------------------------------------------------------------------------

/-- Processes that change no files but by publishing what they may, each under a number of its own and none where
another one prepares a text. -/
structure Disciplined (writer : ι → Nat) (may : ι → Permission)
    (ending : ι → List Exchange → τ → Prop) (first : Shared ι τ) : Prop where
  injective : Function.Injective writer
  apart : Apart may
  obeys : ∀ i, (first.scripts i).Obeys (Publishing (writer i) (may i)) (ending i) []

variable {first : Shared ι τ}

theorem Disciplined.staged (h : Disciplined writer may ending first) (hRun : first.Run moments s) :
    Staged writer may s.machine moments := by
  induction hRun with
  | start => exact fun i source content hLast => nomatch hLast
  | step hRun hStep ih => exact hStep.staged h.injective h.apart (hRun.obeys h.obeys) ih

/-- What may happen to the files next in a run. -/
theorem Disciplined.change (h : Disciplined writer may ending first) (hRun : first.Run moments s)
    (hStep : s.Step moment s') :
    FileChange (writer moment.process) (may moment.process) (history moment.process moments) moment.before moment.after
      moment.exchange? :=
  hStep.change (hRun.obeys h.obeys) (h.staged hRun)

/-- Paths lead to the same places in all states of a run. -/
theorem Disciplined.placeOf (h : Disciplined writer may ending first) (hRun : first.Run moments s) (path : String) :
    s.machine.tree.placeOf path = first.machine.tree.placeOf path := by
  induction hRun with
  | start => rfl
  | step hRun hStep ih =>
    obtain ⟨places, hKeeps⟩ := (h.change hRun hStep).keepsBut
    rw [hStep.before, hStep.after] at hKeeps
    exact (hKeeps.placeOf path).trans ih

/-- What happened to the files at some moment of a run. -/
theorem Disciplined.change_of_mem (h : Disciplined writer may ending first) (hRun : first.Run moments s)
    (hMem : moment ∈ moments) :
    (∀ path, moment.before.tree.placeOf path = first.machine.tree.placeOf path) ∧
      ∃ past, FileChange (writer moment.process) (may moment.process) past moment.before moment.after
        moment.exchange? := by
  induction hRun with
  | start => cases hMem
  | step hRun hStep ih =>
    rcases List.mem_append.mp hMem with hEarlier | hLast
    · exact ih hEarlier
    · rw [List.mem_singleton.mp hLast]
      refine ⟨fun path => ?_, _, h.change hRun hStep⟩
      rw [hStep.before]
      exact h.placeOf hRun path

/-- A process that has named a file at a path has put there, whole, a text that it may publish. -/
theorem Disciplined.exists_published (h : Disciplined writer may ending first) (hRun : first.Run moments s) {i : ι}
    {path : String} (hRenamed : .renamed (writer i) path ∈ history i moments) :
    ∃ moment ∈ moments, moment.process = i ∧
      ∃ past text, (may i).publish past path text ∧ moment.after.tree.readFile path = .ok text := by
  obtain ⟨moment, hMem, rfl, hExchange⟩ := mem_history.mp hRenamed
  refine ⟨moment, hMem, rfl, ?_⟩
  obtain ⟨-, past, hChange⟩ := h.change_of_mem hRun hMem
  rw [hExchange] at hChange
  generalize hNamed : some (Exchange.renamed (writer moment.process) path) = e at hChange
  have hTarget : e.bind Exchange.target? = some path := hNamed ▸ rfl
  cases hChange with
  | quiet hNone | prepared hNone =>
    rw [hNone] at hTarget
    cases hTarget
  | @published path' text hMay hKeeps hFile hFound =>
    obtain rfl : path' = path := Option.some.inj hTarget
    obtain ⟨l, hLocate⟩ := hFound
    rw [← hKeeps.placeOf] at hFile
    exact ⟨past, text, hMay, FileTree.readFile_of_fileAt hLocate hFile⟩

/-- A process that publishes at one path only, and has not named a file there, has never changed the file there. -/
theorem Disciplined.keeps_of_not_renamed (h : Disciplined writer may ending first) (hRun : first.Run moments s)
    {path : String} (hOnly : ∀ past path' text, (may moment.process).publish past path' text → path' = path)
    (hNot : .renamed (writer moment.process) path ∉ history moment.process moments) (hMem : moment ∈ moments) :
    let place := first.machine.tree.placeOf path
    moment.after.tree.fileAt place = moment.before.tree.fileAt place := by
  intro place
  obtain ⟨hPlaces, past, hChange⟩ := h.change_of_mem hRun hMem
  have hBefore : moment.before.tree.placeOf path = place := hPlaces path
  rw [← hBefore]
  generalize hExchange : moment.exchange? = e at hChange
  cases hChange with
  | quiet _ hKeeps => exact hKeeps.files _ List.not_mem_nil
  | prepared _ hMay hKeeps =>
    obtain rfl := hOnly _ _ _ hMay
    exact hKeeps.files _ (List.mem_singleton.not.mpr (FileTree.placeOf_staging_ne _ _ _).symm)
  | published hMay =>
    obtain rfl := hOnly _ _ _ hMay
    exact absurd (mem_history.mpr ⟨moment, hMem, rfl, hExchange⟩) hNot

/-- No process changes the file in which another one prepares a text. -/
theorem Disciplined.keeps_staged (h : Disciplined writer may ending first) (hRun : first.Run moments s)
    (hMem : moment ∈ moments) {i : ι} (hOther : i ≠ moment.process) {past : List Exchange} {path text : String}
    (hMay : (may i).publish past path text) :
    let prepared := first.machine.tree.placeOf (Path.staging (writer i) path)
    moment.after.tree.fileAt prepared = moment.before.tree.fileAt prepared := by
  intro prepared
  obtain ⟨hPlaces, past', hChange⟩ := h.change_of_mem hRun hMem
  have hBefore : moment.before.tree.placeOf (Path.staging (writer i) path) = prepared := hPlaces _
  rw [← hBefore]
  exact hChange.keeps_staged h.injective h.apart hOther hMay

/-- The file at a path is always the text of the process that has published last there, or what was there before. The
processes publish one text each at that path, and any texts at paths that lead elsewhere. -/
theorem Disciplined.holdsLast (h : Disciplined writer may ending first) (hRun : first.Run moments s) {path : String}
    {text : ι → String} (hThere : ∀ i, ∃ past, (may i).publish past path (text i))
    (hText : ∀ i past path' given, (may i).publish past path' given →
      (path' = path ∧ given = text i) ∨ ∀ t : FileTree, t.placeOf path' ≠ t.placeOf path) :
    HoldsLast path (first.machine.tree.fileAt (first.machine.tree.placeOf path)) text s.machine.tree
      (publisher? path moments) := by
  induction hRun with
  | start => exact ⟨rfl, nofun⟩
  | @step moments moment s s' hRun hStep ih =>
    have hChange := h.change hRun hStep
    rw [hStep.before, hStep.after] at hChange
    have hStaging : ∀ {past path' given}, (may moment.process).publish past path' given →
        s.machine.tree.placeOf path ≠ s.machine.tree.placeOf (Path.staging (writer moment.process) path') := by
      intro past path' given hMay
      obtain ⟨past', hOwn⟩ := hThere moment.process
      exact (h.apart hMay hOwn _ _).symm
    rw [publisher?_concat]
    generalize moment.exchange? = e at hChange ⊢
    cases hChange with
    | quiet hTarget hKeeps =>
      rw [hTarget, if_neg nofun]
      exact ih.keeps hKeeps List.not_mem_nil
    | prepared hTarget hMay hKeeps =>
      rw [hTarget, if_neg nofun]
      exact ih.keeps hKeeps (List.mem_singleton.not.mpr (hStaging hMay))
    | @published path' given hMay hKeeps hFile hFound =>
      have hTarget : (some (Exchange.renamed (writer moment.process) path')).bind Exchange.target? = some path' := rfl
      rw [hTarget]
      rcases hText _ _ _ _ hMay with ⟨rfl, rfl⟩ | hPlaces
      · rw [if_pos rfl]
        exact ⟨by rw [hKeeps.placeOf]; exact hFile, fun _ => hFound⟩
      · rw [if_neg fun hSame => hPlaces s.machine.tree (congrArg _ (Option.some.inj hSame))]
        refine ih.keeps hKeeps ?_
        rw [List.mem_cons, List.mem_singleton, not_or]
        exact ⟨hStaging hMay, (hPlaces _).symm⟩

/-- Whatever file is at a path where no text is prepared was there at first, or was published by a process that might do
so after what it had done by then. -/
theorem Disciplined.origin (h : Disciplined writer may ending first) (hRun : first.Run moments s) {path : String}
    (hPath : ∀ i past path' text, (may i).publish past path' text →
      ∀ (t : FileTree) (k : Nat), t.placeOf (Path.staging k path') ≠ t.placeOf path) :
    let place := first.machine.tree.placeOf path
    s.machine.tree.fileAt place = first.machine.tree.fileAt place ∨
      ∃ i past path' text, past <+: history i moments ∧ (may i).publish past path' text ∧
        first.machine.tree.placeOf path' = place ∧ s.machine.tree.fileAt place = some (.file text) := by
  intro place
  induction hRun with
  | start => exact Or.inl rfl
  | @step moments moment s s' hRun hStep ih =>
    have hPlaces := h.placeOf hRun
    have hChange := h.change hRun hStep
    rw [hStep.before, hStep.after] at hChange
    have hGrows : ∀ i, history i moments <+: history i (moments ++ [moment]) := by
      intro i
      rw [history_concat]
      exact List.prefix_append _ _
    -- a change elsewhere
    have hElsewhere : s'.machine.tree.fileAt place = s.machine.tree.fileAt place →
        s'.machine.tree.fileAt place = first.machine.tree.fileAt place ∨
          ∃ i past path' text, past <+: history i (moments ++ [moment]) ∧ (may i).publish past path' text ∧
            first.machine.tree.placeOf path' = place ∧ s'.machine.tree.fileAt place = some (.file text) := by
      intro hSame
      rw [hSame]
      refine ih.imp_right ?_
      rintro ⟨i, past, path', text, hPast, hPublished⟩
      exact ⟨i, past, path', text, hPast.trans (hGrows i), hPublished⟩
    have hStaging : ∀ {past path' text}, (may moment.process).publish past path' text →
        place ≠ s.machine.tree.placeOf (Path.staging (writer moment.process) path') := by
      intro past path' text hMay
      have hNe := hPath _ _ _ _ hMay s.machine.tree (writer moment.process)
      rw [hPlaces path] at hNe
      exact hNe.symm
    generalize moment.exchange? = e at hChange
    cases hChange with
    | quiet _ hKeeps => exact hElsewhere (hKeeps.files place List.not_mem_nil)
    | prepared _ hMay hKeeps => exact hElsewhere (hKeeps.files place (List.mem_singleton.not.mpr (hStaging hMay)))
    | @published path' text hMay hKeeps hFile =>
      rw [hPlaces path'] at hFile hKeeps
      by_cases hHere : first.machine.tree.placeOf path' = place
      · rw [hHere] at hFile
        exact Or.inr ⟨_, _, path', text, hGrows _, hMay, hHere, hFile⟩
      · refine hElsewhere (hKeeps.files place ?_)
        rw [List.mem_cons, List.mem_singleton, not_or]
        exact ⟨hStaging hMay, Ne.symm hHere⟩

end Shared

end PlanReplay

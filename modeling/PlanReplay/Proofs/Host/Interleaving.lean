import Mathlib.Data.List.Induction
import Mathlib.Logic.Function.Basic
import PlanReplay.Host.Machine
import PlanReplay.Proofs.Host.Place

/-!
# Processes that share a machine

Several processes run their scripts on one machine, which answers one request at a time, in any order. A request may
be refused. Making directories and writing files take time: a part of that work may be done at any moment before the
reply, and stay when the request is refused after all. Renaming and removing are done at once or not at all.

* `Script.Obeys` — a script asks for what is lawful after what went before, whatever the replies are.
* `Machine.Answers`, `Machine.WorksOn` — how a machine may answer, and what it may have done before.
* `Machine.Answers.keepsBut`, `Machine.WorksOn.keepsBut` — the files that stay as they are.
* `Shared.Step`, `Shared.Run` — what may happen on a shared machine, one moment after the other.
* `Shared.Run.obeys` — a process whose script obeys a law is within it in every state of a run.
* `Shared.run_play` — any order in which the processes take turns is one of the runs.
-/

namespace PlanReplay

/-- A request and the reply to it. -/
structure Exchange where
  request : Request
  reply : request.Reply

-- ---------------------------------------------------------------------------
-- Scripts and laws
-- ---------------------------------------------------------------------------

namespace Script

variable {τ υ : Type}

/-- The result of a script that is done. -/
def result? : Script τ → Option τ
  | done result => some result
  | ask _ _ => none

/-- A script asks only for what is lawful after the exchanges that went before, and ends as it should after them,
whatever the replies are. -/
def Obeys (lawful : List Exchange → Request → Prop) (ending : List Exchange → τ → Prop) :
    Script τ → List Exchange → Prop
  | done result, past => ending past result
  | ask r next, past => lawful past r ∧ ∀ reply, (next reply).Obeys lawful ending (past ++ [⟨r, reply⟩])

variable {lawful : List Exchange → Request → Prop} {past : List Exchange}

theorem Obeys.bind {ending : List Exchange → υ → Prop} {script : Script τ} {next : τ → Script υ}
    (h : script.Obeys lawful (fun later result => (next result).Obeys lawful ending later) past) :
    (script >>= next).Obeys lawful ending past := by
  induction script generalizing past with
  | done result => exact h
  | ask r reply ih => exact ⟨h.1, fun answer => ih answer (h.2 answer)⟩

theorem Obeys.mono {ending ending' : List Exchange → τ → Prop} {script : Script τ}
    (h : script.Obeys lawful ending past) (hEnding : ∀ later result, ending later result → ending' later result) :
    script.Obeys lawful ending' past := by
  induction script generalizing past with
  | done result => exact hEnding past result h
  | ask r reply ih => exact ⟨h.1, fun answer => ih answer (h.2 answer)⟩

/-- Whatever a script asks for, the exchanges that went before stay. -/
theorem Obeys.grows {ending : List Exchange → τ → Prop} {script : Script τ} (h : script.Obeys lawful ending past) :
    script.Obeys lawful (fun later result => past <+: later ∧ ending later result) past := by
  induction script generalizing past with
  | done result => exact ⟨List.prefix_rfl, h⟩
  | ask r reply ih =>
    refine ⟨h.1, fun answer => (ih answer (h.2 answer)).mono ?_⟩
    exact fun later result hLater => ⟨(List.prefix_append _ _).trans hLater.1, hLater.2⟩

theorem obeys_request {ending : List Exchange → υ → Prop} {r : Request} {next : r.Reply → Script υ}
    (h : lawful past r) (hNext : ∀ reply, (next reply).Obeys lawful ending (past ++ [⟨r, reply⟩])) :
    (request r >>= next).Obeys lawful ending past :=
  ⟨h, hNext⟩

end Script

-- ---------------------------------------------------------------------------
-- Answers of a machine that may fail
-- ---------------------------------------------------------------------------

/-- The replies that say that a request was not carried out. -/
inductive Request.Refused : (r : Request) → r.Reply → Prop where
  | canonicalPath (path : String) : Refused (.canonicalPath path) none
  | isFile (path : String) : Refused (.isFile path) false
  | pathExists (path : String) : Refused (.pathExists path) false
  | createDirectories (path : String) (error : FileError) : Refused (.createDirectories path) (.error error)
  | readFile (path : String) (error : FileError) : Refused (.readFile path) (.error error)
  | writeFile (path content : String) (error : FileError) : Refused (.writeFile path content) (.error error)
  | renameFile (source target : String) (error : FileError) : Refused (.renameFile source target) (.error error)
  | removeFile (path : String) (error : FileError) : Refused (.removeFile path) (.error error)
  | askPlanner (call : PlannerCall) (failure : PlannerFailure) : Refused (.askPlanner call) (.error failure)
  | print (text : String) (error : FileError) : Refused (.print text) (.error error)

/-- The places of the files that an exchange puts or removes. What was not carried out has none. -/
def Exchange.touched (t : FileTree) : Exchange → List Location
  | ⟨.writeFile path _, .ok ()⟩ => [t.placeOf path]
  | ⟨.renameFile source target, .ok ()⟩ => [t.placeOf source, t.placeOf target]
  | ⟨.removeFile path, .ok ()⟩ => [t.placeOf path]
  | _ => []

/-- The place of the file at which a machine is at work for a request. -/
def Request.underWay (t : FileTree) : Request → List Location
  | .writeFile path _ => [t.placeOf path]
  | _ => []

namespace Machine

/-- A machine answers a request by carrying it out as far as that goes, or refuses it. -/
def Answers (m : Machine) (r : Request) (given : r.Reply) (m' : Machine) : Prop :=
  (given = (reply r m).1 ∧ m' = (reply r m).2) ∨ (r.Refused given ∧ m' = m)

/-- What a machine may have done for a request before the reply: some of the directories are made, or the file holds
anything. -/
inductive WorksOn (m : Machine) : Request → Machine → Prop where
  | made (path : String) (count : Nat) :
      WorksOn m (.createDirectories path)
        { m with tree := (m.tree.createAlong (m.tree.startOf path) false ((Path.names path).take count)).2 }
  | written {path : String} (content : String) {node : FileNode} {t : FileTree} (hNode : node ≠ .directory)
      (hPut : m.tree.putFile path node = .ok t) : WorksOn m (.writeFile path content) { m with tree := t }

variable {m m' : Machine}

/-- A change of the files is done, or leaves the machine as it is. -/
theorem change_cases (m : Machine) (outcome : Except FileError FileTree) :
    (∃ t, outcome = .ok t ∧ m.change outcome = (.ok (), { m with tree := t })) ∨
      ∃ error, m.change outcome = (.error error, m) := by
  cases outcome with
  | ok t => exact Or.inl ⟨t, rfl, rfl⟩
  | error error => exact Or.inr ⟨error, rfl⟩

theorem reply_writeFile (m : Machine) (path content : String) :
    reply (.writeFile path content) m = m.change (m.tree.writeFile path content) := rfl

theorem reply_renameFile (m : Machine) (source target : String) :
    reply (.renameFile source target) m = m.change (m.tree.renameFile source target) := rfl

theorem reply_removeFile (m : Machine) (path : String) :
    reply (.removeFile path) m = m.change (m.tree.removeFile path) := rfl

theorem planner_reply (r : Request) (m : Machine) : (reply r m).2.planner = m.planner := by
  have hChange : ∀ outcome, (m.change outcome).2.planner = m.planner := by
    intro outcome
    cases outcome <;> rfl
  cases r with
  | writeFile | renameFile | removeFile => exact hChange _
  | _ => rfl

theorem Answers.planner {r : Request} {given : r.Reply} (h : m.Answers r given m') : m'.planner = m.planner := by
  rcases h with ⟨-, rfl⟩ | ⟨-, rfl⟩
  · exact planner_reply r m
  · rfl

theorem WorksOn.planner {r : Request} (h : m.WorksOn r m') : m'.planner = m.planner := by
  cases h <;> rfl

/-- What a machine does in the end keeps all files but those that the exchange is about. -/
theorem Answers.keepsBut {r : Request} {given : r.Reply} (h : m.Answers r given m') :
    m.tree.KeepsBut m'.tree (Exchange.touched m.tree ⟨r, given⟩) := by
  rcases h with ⟨rfl, rfl⟩ | ⟨-, rfl⟩
  · cases r with
    | canonicalPath | isFile | pathExists | readFile | askPlanner | print | now | pause => exact .refl _ _
    | createDirectories path => exact m.tree.keepsBut_createDirectories path
    | writeFile path content =>
      rw [reply_writeFile]
      rcases m.change_cases (m.tree.writeFile path content) with ⟨t, hWrite, hDone⟩ | ⟨error, hDone⟩
      · rw [hDone]
        exact (FileTree.keepsBut_writeFile hWrite).1
      · rw [hDone]
        exact .refl _ _
    | renameFile source target =>
      rw [reply_renameFile]
      rcases m.change_cases (m.tree.renameFile source target) with ⟨t, hRename, hDone⟩ | ⟨error, hDone⟩
      · rw [hDone]
        exact (FileTree.keepsBut_renameFile hRename).1
      · rw [hDone]
        exact .refl _ _
    | removeFile path =>
      rw [reply_removeFile]
      rcases m.change_cases (m.tree.removeFile path) with ⟨t, hRemove, hDone⟩ | ⟨error, hDone⟩
      · rw [hDone]
        exact FileTree.keepsBut_removeFile hRemove
      · rw [hDone]
        exact .refl _ _
  · exact .refl _ _

/-- What a machine does before the reply keeps all files but the one that is written. -/
theorem WorksOn.keepsBut {r : Request} (h : m.WorksOn r m') : m.tree.KeepsBut m'.tree (r.underWay m.tree) := by
  cases h with
  | made path count => exact m.tree.keepsBut_createAlong _ false _
  | written content hNode hPut => exact (FileTree.keepsBut_putFile hNode hPut).1

/-- A file that was written has its whole content. -/
theorem Answers.written {path content : String} (h : m.Answers (.writeFile path content) (.ok ()) m') :
    m'.tree.fileAt (m.tree.placeOf path) = some (.file content) := by
  rcases h with ⟨hGiven, rfl⟩ | ⟨hRefused, -⟩
  · rw [reply_writeFile] at hGiven ⊢
    rcases m.change_cases (m.tree.writeFile path content) with ⟨t, hWrite, hDone⟩ | ⟨error, hDone⟩
    · rw [hDone]
      exact (FileTree.keepsBut_writeFile hWrite).2
    · rw [hDone] at hGiven
      cases hGiven
  · cases hRefused

/-- A file that was renamed is found under its new name. -/
theorem Answers.renamed {source target : String} (h : m.Answers (.renameFile source target) (.ok ()) m') :
    m'.tree.fileAt (m.tree.placeOf target) = m.tree.fileAt (m.tree.placeOf source) ∧
      ∃ l, m'.tree.locate target = .ok l := by
  rcases h with ⟨hGiven, rfl⟩ | ⟨hRefused, -⟩
  · rw [reply_renameFile] at hGiven ⊢
    rcases m.change_cases (m.tree.renameFile source target) with ⟨t, hRename, hDone⟩ | ⟨error, hDone⟩
    · rw [hDone]
      exact (FileTree.keepsBut_renameFile hRename).2
    · rw [hDone] at hGiven
      cases hGiven
  · cases hRefused

/-- A planner that has answered has answered about the files as they were. -/
theorem Answers.asked {call : PlannerCall} {response : PlannerResponse}
    (h : m.Answers (.askPlanner call) (.ok response) m') : m.planner m.tree call = .ok response := by
  rcases h with ⟨hGiven, -⟩ | ⟨hRefused, -⟩
  · exact hGiven.symm
  · cases hRefused

end Machine

-- ---------------------------------------------------------------------------
-- Runs of several processes
-- ---------------------------------------------------------------------------

/-- Processes that run scripts on one machine. -/
structure Shared (ι τ : Type) where
  machine : Machine
  scripts : ι → Script τ

/-- What happens at one moment on a shared machine: it replies to a process, or goes on with what the process has
asked for. -/
structure Moment (ι : Type) where
  process : ι
  exchange? : Option Exchange
  before : Machine
  after : Machine

namespace Shared

variable {ι τ : Type} [DecidableEq ι]

/-- What may happen next on a shared machine. -/
inductive Step (s : Shared ι τ) : Moment ι → Shared ι τ → Prop where
  | work {i : ι} {r : Request} {next : r.Reply → Script τ} {m : Machine} (hAsk : s.scripts i = .ask r next)
      (hWork : s.machine.WorksOn r m) : Step s ⟨i, none, s.machine, m⟩ ⟨m, s.scripts⟩
  | answer {i : ι} {r : Request} {next : r.Reply → Script τ} {reply : r.Reply} {m : Machine}
      (hAsk : s.scripts i = .ask r next) (hAnswer : s.machine.Answers r reply m) :
      Step s ⟨i, some ⟨r, reply⟩, s.machine, m⟩ ⟨m, Function.update s.scripts i (next reply)⟩

/-- What may happen on a shared machine from a first state on. -/
inductive Run (first : Shared ι τ) : List (Moment ι) → Shared ι τ → Prop where
  | start : Run first [] first
  | step {moments : List (Moment ι)} {moment : Moment ι} {s s' : Shared ι τ} (hRun : Run first moments s)
      (hStep : s.Step moment s') : Run first (moments ++ [moment]) s'

/-- The exchanges of a process. -/
def history (i : ι) (moments : List (Moment ι)) : List Exchange :=
  moments.filterMap fun moment => if moment.process = i then moment.exchange? else none

theorem mem_history {i : ι} {moments : List (Moment ι)} {e : Exchange} :
    e ∈ history i moments ↔ ∃ moment ∈ moments, moment.process = i ∧ moment.exchange? = some e := by
  unfold history
  rw [List.mem_filterMap]
  refine exists_congr fun moment => and_congr_right fun _ => ?_
  split
  · rename_i hProcess
    exact (and_iff_right hProcess).symm
  · rename_i hOther
    exact ⟨nofun, fun h => absurd h.1 hOther⟩

theorem history_concat (i : ι) (moments : List (Moment ι)) (moment : Moment ι) :
    history i (moments ++ [moment]) =
      history i moments ++ if moment.process = i then moment.exchange?.toList else [] := by
  unfold history
  rw [List.filterMap_append]
  congr 1
  split
  · rename_i hProcess
    cases hExchange : moment.exchange? <;> simp [hProcess, hExchange]
  · rename_i hOther
    simp [hOther]

variable {first s s' : Shared ι τ} {moments : List (Moment ι)}

/-- A process that obeys a law is within it in every state of a run: what is left of its script obeys the law after its
exchanges so far. -/
theorem Run.obeys {lawful : ι → List Exchange → Request → Prop} {ending : ι → List Exchange → τ → Prop}
    (h : first.Run moments s) (hFirst : ∀ i, (first.scripts i).Obeys (lawful i) (ending i) []) (i : ι) :
    (s.scripts i).Obeys (lawful i) (ending i) (history i moments) := by
  induction h with
  | start => exact hFirst i
  | @step moments moment s s' hRun hStep ih =>
    rw [history_concat]
    cases hStep with
    | work hAsk hWork =>
      simpa using ih
    | @answer j r next reply m hAsk hAnswer =>
      dsimp only
      by_cases hSame : j = i
      · subst hSame
        rw [hAsk] at ih
        rw [Function.update_self, if_pos rfl]
        exact ih.2 reply
      · rw [Function.update_of_ne (Ne.symm hSame), if_neg hSame, List.append_nil]
        exact ih

/-- The planner stays the same. -/
theorem Run.planner (h : first.Run moments s) : s.machine.planner = first.machine.planner := by
  induction h with
  | start => rfl
  | step hRun hStep ih =>
    cases hStep with
    | work _ hWork => exact hWork.planner.trans ih
    | answer _ hAnswer => exact hAnswer.planner.trans ih

/-- A process that is done has ended as its law says. -/
theorem Run.ending {lawful : ι → List Exchange → Request → Prop} {ending : ι → List Exchange → τ → Prop}
    (h : first.Run moments s) (hFirst : ∀ i, (first.scripts i).Obeys (lawful i) (ending i) []) {i : ι} {result : τ}
    (hResult : (s.scripts i).result? = some result) : ending i (history i moments) result := by
  have hObeys := h.obeys hFirst i
  cases hScript : s.scripts i with
  | done given =>
    rw [hScript] at hObeys hResult
    exact Option.some.inj hResult ▸ hObeys
  | ask r next =>
    rw [hScript] at hResult
    cases hResult

-- ---------------------------------------------------------------------------
-- Runs in a given order
-- ---------------------------------------------------------------------------

/-- A process has its next request carried out. -/
def advance (s : Shared ι τ) (i : ι) : Shared ι τ :=
  match s.scripts i with
  | .done _ => s
  | .ask r next => ⟨(Machine.reply r s.machine).2, Function.update s.scripts i (next (Machine.reply r s.machine).1)⟩

/-- The processes take turns as they are listed. -/
def play (s : Shared ι τ) (turns : List ι) : Shared ι τ := turns.foldl advance s

/-- Any order in which processes take turns is one of the runs. -/
theorem run_play (first : Shared ι τ) (turns : List ι) : ∃ moments, first.Run moments (first.play turns) := by
  induction turns using List.reverseRecOn with
  | nil => exact ⟨[], .start⟩
  | append_singleton turns i ih =>
    obtain ⟨moments, hRun⟩ := ih
    have hLast : first.play (turns ++ [i]) = (first.play turns).advance i := List.foldl_append
    rw [hLast]
    unfold advance
    split
    · exact ⟨moments, hRun⟩
    · rename_i hAsk
      exact ⟨_, hRun.step (.answer hAsk (Or.inl ⟨rfl, rfl⟩))⟩

end Shared

end PlanReplay

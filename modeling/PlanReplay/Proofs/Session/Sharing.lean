import PlanReplay.Proofs.Host.Publishing
import PlanReplay.Proofs.Session.PlanSource
import PlanReplay.Session.Execute

/-!
# Sessions that share a home

Sessions that run at the same time leave their problems at one path, and keep the responses of planners under keys that
are made of the texts that they have in memory. A planner that reads the file of the problem answers about the problem
of the session that was last to leave one.

* `ArtifactStore.write_obeys`, `ArtifactStore.respond_obeys`, `Session.planning_lawful` — what a session asks for.
* `sessions_disciplined` — sessions keep the law of publishing.
* `sessions_holdLast`, `sessions_consulted` — whose problem is in the file, and about whose a planner was asked.
* `sessions_entries` — what is in the cache.
-/

namespace PlanReplay

open Shared

-- ---------------------------------------------------------------------------
-- What a session asks for
-- ---------------------------------------------------------------------------

/-- The texts that a session leaves, after what went before: its problem, some plan, and the responses of the planner
that it has asked about its problem. -/
inductive Leaves (s : ArtifactStore) (pddl : String) (past : List Exchange) : String → String → Prop where
  | problem : Leaves s pddl past s.problemPath pddl
  | plan (text : String) : Leaves s pddl past s.planPath text
  | entry {call : PlannerCall} {response : PlannerResponse} (hProblem : call.problem = pddl)
      (hAsked : ⟨.askPlanner call, .ok response⟩ ∈ past) :
      Leaves s pddl past (s.entryPath (cacheKey call.domain call.problem))
        (CacheEntry.render ⟨cacheFormatVersion, cacheKey call.domain call.problem, response⟩)

/-- A session leaves such texts, and asks a planner about its problem once it has left it. -/
def sessionMay (s : ArtifactStore) (pddl : String) : Permission where
  publish := Leaves s pddl
  ask past call := call.problem = pddl ∧ call.problemPath = s.problemPath ∧ .renamed s.writer s.problemPath ∈ past

section Law

variable {s : ArtifactStore} {pddl : String} {past : List Exchange}

/-- What a session may ask for. -/
abbrev SessionLaw (s : ArtifactStore) (pddl : String) : List Exchange → Request → Prop :=
  Publishing s.writer (sessionMay s pddl)

theorem Leaves.mono {later : List Exchange} {path text : String} (h : Leaves s pddl past path text)
    (hGrows : past <+: later) : Leaves s pddl later path text := by
  cases h with
  | problem => exact .problem
  | plan => exact .plan text
  | entry hProblem hAsked => exact .entry hProblem (hGrows.mem hAsked)

/-- A script asks only for what a session may ask for, however it ends. -/
abbrev Script.Lawful {τ : Type} (s : ArtifactStore) (pddl : String) (script : Script τ) (past : List Exchange) : Prop :=
  script.Obeys (SessionLaw s pddl) (fun _ _ => True) past

theorem ArtifactStore.write_obeys {path content : String} (hMay : Leaves s pddl past path content) :
    (s.write path content).Obeys (SessionLaw s pddl)
      (fun later outcome => ∀ written, outcome = .ok written → written = path ∧ .renamed s.writer path ∈ later) past := by
  have hPublish : ∀ own, (sessionMay s pddl).publish (past ++ own) path content :=
    fun own => hMay.mono (List.prefix_append past own)
  unfold write
  refine Script.Obeys.bind ((publish_obeys hPublish).mono ?_)
  rintro later outcome ⟨own, rfl, hEnd⟩
  cases outcome with
  | error error => exact nofun
  | ok done =>
    intro written hWritten
    exact ⟨(Except.ok.inj hWritten).symm, List.mem_append_right past (List.mem_of_getLast? hEnd)⟩

/-- Looking a key up asks for nothing but files. -/
theorem ArtifactStore.lookUp_lawful (useCache : Bool) (key : String) : (s.lookUp useCache key).Lawful s pddl past := by
  unfold lookUp
  split
  · refine Script.Obeys.bind ?_
    unfold cachedResponse
    refine Script.obeys_request (.quiet trivial) fun found => ?_
    cases found with
    | false => exact trivial
    | true =>
      refine Script.obeys_request (r := .readFile _) (.quiet trivial) fun given => ?_
      rcases given with error | text
      · exact trivial
      · dsimp only
        cases CacheEntry.responseFor? key text <;> exact trivial
  · exact trivial

/-- A response that is not from the cache is one of the planner. -/
theorem ArtifactStore.respond_obeys {useCache : Bool} {key : String} {call : PlannerCall}
    (hMay : (sessionMay s pddl).ask past call) :
    (s.respond useCache key call).Obeys (SessionLaw s pddl)
      (fun later outcome => ∀ response, outcome = .ok (response, false) →
        (⟨.askPlanner call, .ok response⟩ : Exchange) ∈ later) past := by
  unfold respond
  refine Script.Obeys.bind (((s.lookUp_lawful useCache key).grows).mono ?_)
  rintro later outcome ⟨hGrows, -⟩
  have hLater : (sessionMay s pddl).ask later call := ⟨hMay.1, hMay.2.1, hGrows.mem hMay.2.2⟩
  rcases outcome with error | _ | response
  · exact nofun
  · refine Script.obeys_request (r := .askPlanner call) (.ask hLater) ?_
    rintro (failure | response)
    · exact nofun
    · intro response' hResponse
      cases hResponse
      exact List.mem_append_right later List.mem_cons_self
  · exact nofun

theorem ArtifactStore.obtainPlan_lawful (fallback : Float) (useCache : Bool) {call : PlannerCall}
    (hMay : (sessionMay s pddl).ask past call) : (s.obtainPlan fallback useCache call).Lawful s pddl past := by
  unfold obtainPlan
  refine Script.Obeys.bind ((respond_obeys hMay).mono ?_)
  rintro later (error | ⟨response, cached⟩) hAsked
  · exact trivial
  · refine Script.Obeys.bind ((write_obeys (.plan response.stdout)).grows.mono ?_)
    rintro after (error | path) ⟨hGrows, -⟩
    · exact trivial
    · dsimp only
      cases response.classify fallback with
      | error failure => exact trivial
      | ok outcome =>
        dsimp only
        split
        · rename_i hNew
          have hFresh : cached = false := by simpa using (Bool.and_eq_true_iff.mp hNew).2
          have hStored := hGrows.mem (hAsked response (by rw [hFresh]))
          refine Script.Obeys.bind ((write_obeys (.entry hMay.1 hStored)).mono ?_)
          rintro last (error | path') - <;> exact trivial
        · exact trivial

namespace Session

/-- An attempt goes on with a result, and is over with an error. -/
theorem obeys_bind {τ υ : Type} {lawful : List Exchange → Request → Prop} {first : Attempt τ} {next : τ → Attempt υ}
    (h : first.run.Obeys lawful (fun later outcome => ∀ result, outcome = .ok result →
      (next result).run.Obeys lawful (fun _ _ => True) later) past) :
    (first >>= next).run.Obeys lawful (fun _ _ => True) past := by
  refine Script.Obeys.bind (h.mono ?_)
  rintro later (error | result) hNext
  · exact trivial
  · exact hNext result rfl

/-- An attempt takes over the result of a script. -/
theorem obeys_attempt {ε τ : Type} {lawful : List Exchange → Request → Prop} {ending : List Exchange → τ → Prop}
    {error : ε → SessionError} {script : Script (Except ε τ)}
    (h : script.Obeys lawful (fun later outcome => ∀ result, outcome = .ok result → ending later result) past) :
    (attempt error script).run.Obeys lawful (fun later outcome => ∀ result, outcome = .ok result → ending later result)
      past := by
  refine Script.Obeys.bind (h.mono ?_)
  rintro later (fault | given) hEnd
  · exact nofun
  · intro result hResult
    cases hResult
    exact hEnd given rfl

/-- Reading a file changes nothing. -/
theorem readText_obeys (path : String) :
    (readText path).run.Obeys (SessionLaw s pddl) (fun later outcome => ∀ text, outcome = .ok text → past <+: later)
      past := by
  refine obeys_attempt (Script.obeys_request (r := .readFile path) (.quiet trivial) fun given => ?_)
  exact fun _ _ => List.prefix_append _ _

theorem loadPlan_lawful (options : RunOptions) (paths : RunPaths) (selection : Selection) (fallback : Float)
    (hLeft : .renamed s.writer s.problemPath ∈ past) :
    (loadPlan options paths s selection fallback pddl s.problemPath).run.Lawful s pddl past := by
  unfold loadPlan
  split
  · -- the plan is given
    refine obeys_bind ((readText_obeys _).mono ?_)
    intro later outcome _ text _
    refine obeys_bind (obeys_attempt ((ArtifactStore.write_obeys (.plan text)).mono ?_))
    exact fun _ _ _ _ _ => trivial
  · refine obeys_bind ((readText_obeys _).mono ?_)
    intro later outcome hGrows domain hDomain
    have hMay : ∀ domainPath, (sessionMay s pddl).ask later ⟨domain, pddl, domainPath, s.problemPath⟩ :=
      fun _ => ⟨rfl, rfl, (hGrows domain hDomain).mem hLeft⟩
    have hObtain := s.obtainPlan_lawful fallback options.useCache (hMay (options.domain.getD (paths.domainFile selection)))
    exact Script.Obeys.bind (hObtain.mono fun _ _ _ => trivial)

/-- A session leaves its problem, and gets its plan, by what it may ask for. -/
theorem planning_lawful (options : RunOptions) (paths : RunPaths) (selection : Selection) (fallback : Float) :
    (planning options paths s selection fallback pddl).run.Lawful s pddl past := by
  unfold planning
  refine obeys_bind ((obeys_attempt (ArtifactStore.write_obeys .problem)).mono ?_)
  intro later outcome hLeft problemPath hWritten
  obtain ⟨rfl, hRenamed⟩ := hLeft problemPath hWritten
  exact loadPlan_lawful options paths selection fallback hRenamed

end Session

end Law

-- ---------------------------------------------------------------------------
-- The files that sessions share
-- ---------------------------------------------------------------------------

namespace RunPaths

/-- The file of the problem of every session. -/
def problemFile (p : RunPaths) : String := Path.join p.generated "problem.pddl"

/-- The file of the response that is kept under a key. -/
def entryFile (p : RunPaths) (key : String) : String := Path.join (Path.join p.cache "plans") (key ++ ".json")

end RunPaths

/-- A path of a file that a session may leave: its place is one of a name that no file has in which a text is prepared. -/
def IsLeft (path name : String) : Prop :=
  (∃ base, path = Path.join base name) ∧ '/' ∉ name.toList ∧ Path.IsProper name ∧ name.toList.getLast? ≠ some 'p'

theorem IsLeft.placeOf {path name : String} (h : IsLeft path name) (t : FileTree) :
    ∃ here, t.placeOf path = here ++ [name] := by
  obtain ⟨⟨base, rfl⟩, hSlash, hName, -⟩ := h
  exact ⟨_, t.placeOf_join base hSlash hName⟩

/-- Files with different names are at different places. -/
theorem IsLeft.placeOf_ne {path path' name name' : String} (h : IsLeft path name) (h' : IsLeft path' name')
    (hNames : name ≠ name') (t : FileTree) : t.placeOf path ≠ t.placeOf path' := by
  obtain ⟨here, hPlace⟩ := h.placeOf t
  obtain ⟨here', hPlace'⟩ := h'.placeOf t
  rw [hPlace, hPlace']
  exact fun hSame => hNames (List.singleton_inj.mp (List.append_inj' hSame rfl).2)

/-- No text is prepared there. -/
theorem IsLeft.placeOf_staging_ne {path name : String} (h : IsLeft path name) (t : FileTree) (writer : Nat)
    (other : String) : t.placeOf (Path.staging writer other) ≠ t.placeOf path := by
  obtain ⟨here, hPlace⟩ := h.placeOf t
  rw [FileTree.placeOf_staging, hPlace]
  intro hSame
  have hName := List.singleton_inj.mp (List.append_inj' hSame rfl).2
  exact h.2.2.2 (hName ▸ Path.getLast?_stagingName _ _)

theorem isLeft_problemFile (p : RunPaths) : IsLeft p.problemFile "problem.pddl" :=
  ⟨⟨_, rfl⟩, by decide, ⟨by decide, by decide⟩, by decide⟩

theorem isLeft_planPath (s : ArtifactStore) : IsLeft s.planPath "output_plan.txt" :=
  ⟨⟨_, rfl⟩, by decide, ⟨by decide, by decide⟩, by decide⟩

theorem isLeft_entryFile (p : RunPaths) {key : String} (hKey : '/' ∉ key.toList) :
    IsLeft (p.entryFile key) (key ++ ".json") := by
  refine ⟨⟨_, rfl⟩, ArtifactStore.slash_not_mem_entryName hKey, ArtifactStore.isProper_entryName key, ?_⟩
  rw [ArtifactStore.getLast?_entryName]
  decide

theorem entryName_ne {key name : String} (h : name.toList.getLast? ≠ some 'n') : key ++ ".json" ≠ name := by
  rintro rfl
  exact h (ArtifactStore.getLast?_entryName key)

/-- A session leaves files of three kinds. -/
theorem Leaves.isLeft {p : RunPaths} {writer : Nat} {pddl path text : String} {past : List Exchange}
    (h : Leaves (p.store writer) pddl past path text) : ∃ name, IsLeft path name := by
  cases h with
  | problem => exact ⟨_, isLeft_problemFile p⟩
  | plan => exact ⟨_, isLeft_planPath _⟩
  | entry => exact ⟨_, isLeft_entryFile p (slash_not_mem_cacheKey _ _)⟩

-- ---------------------------------------------------------------------------
-- Sessions at the same time
-- ---------------------------------------------------------------------------

/-- What a session is about: its options, its domain, the duration of an action that has none, and its problem. -/
structure SessionInput where
  options : RunOptions
  selection : Selection
  fallback : Float
  pddl : String

section Sessions

variable {ι : Type}

/-- Sessions that leave their problems and get their plans in one home. -/
def sessions (m : Machine) (paths : RunPaths) (writer : ι → Nat) (input : ι → SessionInput) :
    Shared ι (Except (Failure SessionError) (Plan Float)) :=
  ⟨m, fun i => (Session.planning (input i).options paths (paths.store (writer i)) (input i).selection (input i).fallback
    (input i).pddl).run⟩

variable {writer : ι → Nat}

theorem sessions_disciplined (m : Machine) (paths : RunPaths) (hWriter : Function.Injective writer)
    (input : ι → SessionInput) :
    Disciplined writer (fun i => sessionMay (paths.store (writer i)) (input i).pddl) (fun _ _ _ => True)
      (sessions m paths writer input) := by
  refine ⟨hWriter, ?_, ?_⟩
  · intro i j past past' path path' text text' hMay hMay' t k
    obtain ⟨name, hLeft⟩ := Leaves.isLeft hMay'
    exact hLeft.placeOf_staging_ne t k path
  · intro i
    have hLawful : (Session.planning (input i).options paths (paths.store (writer i)) (input i).selection
        (input i).fallback (input i).pddl).run.Lawful (paths.store (writer i)) (input i).pddl [] :=
      Session.planning_lawful ..
    exact hLawful

-- ---------------------------------------------------------------------------
-- What the cache holds
-- ---------------------------------------------------------------------------

/-- What a planner makes of the files of a domain and a problem. -/
abbrev FileSolver := Except FileError String → Except FileError String → Except PlannerFailure PlannerResponse

/-- A planner that reads the files at the paths that it is called with. -/
def Machine.PlannerReads (m : Machine) (solve : FileSolver) : Prop :=
  ∀ tree call, m.planner tree call = solve (tree.readFile call.domainPath) (tree.readFile call.problemPath)

/-- At some moment of a run a session `i` got a response to a call. The planner had made it of the problem of the
session `n`, which was the last one before to leave its problem. -/
def Consulted (solve : FileSolver) (problemFile : String) (pddl : ι → String) (moments : List (Moment ι)) (i : ι)
    (call : PlannerCall) (response : PlannerResponse) (n : ι) : Prop :=
  ∃ earlier moment later, moments = earlier ++ moment :: later ∧ moment.process = i ∧
    moment.exchange? = some ⟨.askPlanner call, .ok response⟩ ∧ publisher? problemFile earlier = some n ∧
    solve (moment.before.tree.readFile call.domainPath) (.ok (pddl n)) = .ok response

variable {solve : FileSolver} {problemFile : String} {pddl : ι → String} {moments : List (Moment ι)} {i n : ι}
  {call : PlannerCall} {response : PlannerResponse}

theorem Consulted.concat (h : Consulted solve problemFile pddl moments i call response n) (moment : Moment ι) :
    Consulted solve problemFile pddl (moments ++ [moment]) i call response n := by
  obtain ⟨earlier, asked, later, rfl, hAsked⟩ := h
  exact ⟨earlier, asked, later ++ [moment], by rw [List.append_assoc]; rfl, hAsked⟩

variable [DecidableEq ι] {m : Machine} {paths : RunPaths} {input : ι → SessionInput}
  {s : Shared ι (Except (Failure SessionError) (Plan Float))}

/-- The file of the problem holds the problem of the session that was the last to leave one. -/
theorem sessions_holdLast (hWriter : Function.Injective writer) (hRun : (sessions m paths writer input).Run moments s) :
    HoldsLast paths.problemFile (m.tree.fileAt (m.tree.placeOf paths.problemFile)) (fun i => (input i).pddl)
      s.machine.tree (publisher? paths.problemFile moments) := by
  refine (sessions_disciplined m paths hWriter input).holdsLast hRun (fun i => ⟨[], .problem⟩) ?_
  intro i past path' given hLeaves
  have hProblem := isLeft_problemFile paths
  cases hLeaves with
  | problem => exact Or.inl ⟨rfl, rfl⟩
  | plan => exact Or.inr ((isLeft_planPath _).placeOf_ne hProblem (by decide))
  | @entry call response =>
    have hEntry := isLeft_entryFile paths (slash_not_mem_cacheKey call.domain call.problem)
    exact Or.inr (hEntry.placeOf_ne hProblem (entryName_ne (by decide)))

/-- A planner that reads the file of the problem was asked about the problem that was left last. -/
theorem sessions_consulted (hWriter : Function.Injective writer) (hPlanner : m.PlannerReads solve)
    (hRun : (sessions m paths writer input).Run moments s)
    (hAsked : ⟨.askPlanner call, .ok response⟩ ∈ history i moments) :
    ∃ n, Consulted solve paths.problemFile (fun i => (input i).pddl) moments i call response n := by
  have hDisciplined := sessions_disciplined m paths hWriter input
  induction hRun with
  | start => cases hAsked
  | @step moments moment s s' hRun hStep ih =>
    rw [history_concat] at hAsked
    rcases List.mem_append.mp hAsked with hEarlier | hNow
    · obtain ⟨n, hConsulted⟩ := ih hEarlier
      exact ⟨n, hConsulted.concat moment⟩
    · have hLast := sessions_holdLast hWriter hRun
      have hSame := hRun.planner
      have hObeys := hRun.obeys hDisciplined.obeys i
      split at hNow
      · rename_i hProcess
        cases hStep with
        | work => cases hNow
        | answer hAsk hAnswer =>
          obtain rfl := hProcess
          cases List.mem_singleton.mp hNow
          rw [hAsk] at hObeys
          cases hObeys.1 with
          | quiet hQuiet => exact hQuiet.elim
          | ask hMay =>
            obtain ⟨-, hPath, hLeft⟩ := hMay
            obtain ⟨left, hMem, -, hExchange⟩ := mem_history.mp hLeft
            obtain ⟨n, hPublisher⟩ := exists_publisher hMem (show _ = some paths.problemFile by rw [hExchange]; rfl)
            refine ⟨n, moments, _, [], rfl, rfl, rfl, hPublisher, ?_⟩
            rw [hPublisher] at hLast
            have hRead : s.machine.tree.readFile call.problemPath = .ok (input n).pddl := by
              rw [hPath]
              exact hLast.readFile
            have hReply := hAnswer.asked
            rw [hSame] at hReply
            rw [← hRead]
            exact (hPlanner s.machine.tree call).symm.trans hReply
      · cases hNow

/--
**What the cache holds.** Sessions that share a home leave their problems and get their plans at the same time, in any
order of their requests, and any request may fail; the planner reads the files that it is called with. In every state
of a run the file of an entry is the one that was there at first, or it was stored by a session that was answered about
a call with its own problem, under the key of the texts of that call, and holds that answer. But the planner had made
the answer of the problem of the session that was the last to leave one before it was asked.
-/
theorem sessions_entries (hWriter : Function.Injective writer) (hPlanner : m.PlannerReads solve)
    (hRun : (sessions m paths writer input).Run moments s) {key : String} (hKey : '/' ∉ key.toList) :
    let entry := m.tree.placeOf (paths.entryFile key)
    s.machine.tree.fileAt entry = m.tree.fileAt entry ∨
      ∃ i call response n, call.problem = (input i).pddl ∧ key = cacheKey call.domain call.problem ∧
        s.machine.tree.fileAt entry = some (.file (CacheEntry.render ⟨cacheFormatVersion, key, response⟩)) ∧
        Consulted solve paths.problemFile (fun i => (input i).pddl) moments i call response n := by
  intro entry
  have hOwn := isLeft_entryFile paths hKey
  refine ((sessions_disciplined m paths hWriter input).origin hRun ?_).imp_right ?_
  · intro i past path text hMay t k
    exact hOwn.placeOf_staging_ne t k path
  · rintro ⟨i, past, path, text, hPast, hLeaves, hPlace, hFile⟩
    cases hLeaves with
    | problem => exact absurd hPlace ((isLeft_problemFile paths).placeOf_ne hOwn (entryName_ne (by decide)).symm _)
    | plan => exact absurd hPlace ((isLeft_planPath _).placeOf_ne hOwn (entryName_ne (by decide)).symm _)
    | @entry call response hProblem hAsked =>
      have hOther := isLeft_entryFile paths (slash_not_mem_cacheKey call.domain call.problem)
      have hSame : cacheKey call.domain call.problem = key := by
        by_contra hKeys
        exact hOther.placeOf_ne hOwn (fun hNames => hKeys (ArtifactStore.entryName_injective hNames)) _ hPlace
      obtain ⟨n, hConsulted⟩ := sessions_consulted hWriter hPlanner hRun (hPast.mem hAsked)
      rw [hSame] at hFile
      exact ⟨i, call, response, n, hProblem, hSame.symm, hFile, hConsulted⟩

end Sessions

-- ---------------------------------------------------------------------------
-- A session that is overtaken
-- ---------------------------------------------------------------------------

/-- A planner that prints the problem. -/
def echo : FileSolver
  | _, .ok text => .ok ⟨text, "", 0⟩
  | _, .error _ => .error (.unavailable "no problem")

/-- A machine with such a planner and the file of a domain. -/
def echoing : Machine :=
  .fresh ⟨[], OrderedMap.empty.insert ["domain.pddl"] (.file "domain")⟩ fun tree call =>
    echo (tree.readFile call.domainPath) (tree.readFile call.problemPath)

/-- Sessions with that domain and one of two problems. -/
def twoProblems (second : Bool) : SessionInput where
  options := { RunOptions.ofProblem "problem.json" with domain := some "domain.pddl" }
  selection := ⟨.logistics, .classical, by decide⟩
  fallback := 1
  pddl := cond second "second" "first"

/-- Two such sessions at their start. -/
def twoSessions : Shared Bool (Except (Failure SessionError) (Plan Float)) :=
  sessions echoing (.ofHome "home") (fun second => cond second 8 7) twoProblems

/-- The first session has left its problem, the second one has left its own, and then the first one has gone on to its
end. -/
def overtaken : Shared Bool (Except (Failure SessionError) (Plan Float)) :=
  twoSessions.play (List.replicate 3 false ++ List.replicate 3 true ++ List.replicate 9 false)

/-- The key of the first session's texts. -/
def firstKey : String := "0e1b1c17a100bf74c477acb8ae207ac4ff28aba2ebd0f56cf9ec1a6985a4d80a"

theorem cacheKey_first : cacheKey "domain" "first" = firstKey := by decide +kernel

theorem placeOf_first : echoing.tree.placeOf ((RunPaths.ofHome "home").entryFile firstKey) =
    ["home", "cache", "plans", firstKey ++ ".json"] := by
  decide

/-- The entry of the first session holds what the planner has made of the problem of the second one. -/
theorem overtaken_entry : overtaken.machine.tree.fileAt ["home", "cache", "plans", firstKey ++ ".json"] =
    some (.file (CacheEntry.render ⟨cacheFormatVersion, firstKey, ⟨"second", "", 0⟩⟩)) := by
  decide +kernel

theorem run_overtaken : ∃ moments, twoSessions.Run moments overtaken := run_play _ _

theorem twoWriters_injective : Function.Injective fun second : Bool => cond second 8 7 := by
  intro a b
  revert a b
  decide

theorem echoing_reads : echoing.PlannerReads echo := fun _ _ => rfl

/-- The first one of two sessions keeps an answer about the problem of the second one. -/
theorem sessions_entries_of_two_problems :
    ∃ moments, twoSessions.Run moments overtaken ∧
      ∃ i call response n, call.problem = (twoProblems i).pddl ∧ firstKey = cacheKey call.domain call.problem ∧
        overtaken.machine.tree.fileAt ["home", "cache", "plans", firstKey ++ ".json"] =
          some (.file (CacheEntry.render ⟨cacheFormatVersion, firstKey, response⟩)) ∧
        Consulted echo (RunPaths.ofHome "home").problemFile (fun i => (twoProblems i).pddl) moments i call response n := by
  obtain ⟨moments, hRun⟩ := run_overtaken
  have hKey : '/' ∉ firstKey.toList := by decide +kernel
  have hEntries := sessions_entries twoWriters_injective echoing_reads hRun hKey
  dsimp only at hEntries
  rw [placeOf_first] at hEntries
  have hNew : echoing.tree.fileAt ["home", "cache", "plans", firstKey ++ ".json"] = none := by decide
  refine ⟨moments, hRun, hEntries.resolve_left ?_⟩
  rw [hNew, overtaken_entry]
  exact nofun

/-- An entry of the cache may hold an answer that the planner does not give about the problem of its key. -/
theorem entry_of_other_problem :
    ¬ ∀ moments s, twoSessions.Run moments s → ∀ i domain response,
      let key := cacheKey domain (twoProblems i).pddl
      s.machine.tree.fileAt (s.machine.tree.placeOf ((RunPaths.ofHome "home").entryFile key)) =
          some (.file (CacheEntry.render ⟨cacheFormatVersion, key, response⟩)) →
        echo (.ok domain) (.ok (twoProblems i).pddl) = .ok response := by
  intro hClaim
  obtain ⟨moments, hRun⟩ := run_overtaken
  have hFirst := hClaim moments overtaken hRun false "domain" ⟨"second", "", 0⟩
  have hPlace := (sessions_disciplined echoing (.ofHome "home") twoWriters_injective twoProblems).placeOf hRun
    ((RunPaths.ofHome "home").entryFile firstKey)
  have hKey : cacheKey "domain" (twoProblems false).pddl = firstKey := cacheKey_first
  dsimp only at hFirst
  rw [hKey, hPlace] at hFirst
  have hAnswer := hFirst ((congrArg _ placeOf_first).trans overtaken_entry)
  have hText : "first" = "second" := congrArg PlannerResponse.stdout (Except.ok.inj hAnswer)
  exact absurd hText (by decide)

end PlanReplay

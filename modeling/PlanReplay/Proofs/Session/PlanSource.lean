import PlanReplay.Proofs.Artifacts.Store
import PlanReplay.Session.PlanSource

/-!
# Plans from the cache

A session that has obtained a plan leaves the response in the cache, and a later one takes it from there, whatever it
makes of it.

* `PlannerResponse.classify_alike` — whether a response says something does not depend on the fallback duration.
* `ArtifactStore.respond_run`, `ArtifactStore.obtainPlan_run` — what a session does, from one result to the next.
* `ArtifactStore.state_of_obtainPlan` — after a plan is obtained its response is in the cache.
* `ArtifactStore.obtainPlan_coherent` — a later session obtains what the first one's response says.
-/

namespace PlanReplay

-- ---------------------------------------------------------------------------
-- Keys
-- ---------------------------------------------------------------------------

/-- A key is a name, without slashes. -/
theorem slash_not_mem_cacheKey (domain problem : String) : '/' ∉ (cacheKey domain problem).toList := by
  have hDigit : ∀ n : Fin 16, '/' ≠ Nat.digitChar n.val := by decide
  unfold cacheKey hexText
  rw [String.toList_ofList]
  intro hMem
  obtain ⟨byte, -, hSlash⟩ := List.mem_flatMap.mp hMem
  have hByte : byte.toNat < 256 := byte.toNat_lt
  simp only [Json.twoHexDigits, List.mem_cons, List.not_mem_nil, or_false] at hSlash
  rcases hSlash with hHigh | hLow
  · exact hDigit ⟨byte.toNat / 16, by omega⟩ hHigh
  · exact hDigit ⟨byte.toNat % 16, by omega⟩ hLow

-- ---------------------------------------------------------------------------
-- What a response says
-- ---------------------------------------------------------------------------

/-- Whether a text holds actions does not depend on the fallback duration. -/
theorem Plan.isEmpty_ofText (fallback fallback' : Float) (text : String) :
    (ofText fallback text).actions.isEmpty = (ofText fallback' text).actions.isEmpty := by
  have hLength : (ofText fallback text).actions.length = (ofText fallback' text).actions.length := by
    unfold ofText ofLines sortByStart
    dsimp only
    rw [(sortByKey_perm _ _).length_eq, (sortByKey_perm _ _).length_eq, List.length_map, List.length_map]
  rw [Bool.eq_iff_iff, List.isEmpty_iff_length_eq_zero, List.isEmpty_iff_length_eq_zero, hLength]

/-- A response that says something says something whatever the fallback duration. -/
theorem PlannerResponse.classify_alike {response : PlannerResponse} {fallback : Float} {outcome : PlannerOutcome}
    (h : response.classify fallback = .ok outcome) (fallback' : Float) :
    ∃ outcome', response.classify fallback' = .ok outcome' := by
  have hEmpty := Plan.isEmpty_ofText fallback fallback' response.stdout
  unfold classify at h ⊢
  dsimp only at h ⊢
  rw [← hEmpty]
  split
  · exact ⟨_, rfl⟩
  · rename_i hCode
    rw [if_neg hCode] at h
    split
    · exact ⟨_, rfl⟩
    · rename_i hMentions
      rw [if_neg hMentions] at h
      split
      · rename_i hNone
        rw [if_pos hNone] at h
        cases h
      · exact ⟨_, rfl⟩

namespace ArtifactStore

-- ---------------------------------------------------------------------------
-- What a session does
-- ---------------------------------------------------------------------------

/-- The response is taken from the cache, or else from the planner. -/
theorem respond_run (s : ArtifactStore) (key : String) (call : PlannerCall) (m : Machine) :
    (s.respond true key call).runOn m =
      match s.stateOf key (m.tree.nodeAt? (s.entryPath key)) with
      | .error error => (.error (.artifact error), m)
      | .ok (.present response) => (.ok (response, true), m)
      | .ok _ =>
        match m.planner m.tree call with
        | .error failure => (.error (.planner failure), { m with calls := call :: m.calls })
        | .ok response => (.ok (response, false), { m with calls := call :: m.calls }) := by
  have hAsk : Machine.reply (.askPlanner call) m = (m.planner m.tree call, { m with calls := call :: m.calls }) := rfl
  unfold respond lookUp
  rw [if_pos rfl, Script.runOn_bind, Script.runOn_bind, cachedResponse_run]
  cases s.stateOf key (m.tree.nodeAt? (s.entryPath key)) with
  | error error => rfl
  | ok state =>
    cases state with
    | present response => rfl
    | missing | unreadable =>
      dsimp only
      rw [Script.runOn_pure]
      dsimp only
      rw [Script.runOn_bind, Script.runOn_request, hAsk]
      cases m.planner m.tree call <;> rfl

/-- With a response the plan is written, and a response that says something is kept in the cache, unless it is from
there. -/
theorem obtainPlan_run (s : ArtifactStore) (fallback : Float) (call : PlannerCall) (m : Machine) :
    (s.obtainPlan fallback true call).runOn m =
      match (s.respond true (cacheKey call.domain call.problem) call).runOn m with
      | (.error error, answered) => (.error error, answered)
      | (.ok (response, cached), answered) =>
        match (s.writePlan response.stdout).runOn answered with
        | (.error error, written) => (.error (.artifact error), written)
        | (.ok _, written) =>
          match response.classify fallback with
          | .error failure => (.error (.planner failure), written)
          | .ok outcome =>
            if cached then (.ok outcome.toPlan, written)
            else
              match (s.storeResponse (cacheKey call.domain call.problem) response).runOn written with
              | (.error error, stored) => (.error (.artifact error), stored)
              | (.ok _, stored) => (.ok outcome.toPlan, stored) := by
  unfold obtainPlan
  dsimp only
  rw [Script.runOn_bind]
  generalize (s.respond true (cacheKey call.domain call.problem) call).runOn m = answer
  obtain ⟨answer, answered⟩ := answer
  cases answer with
  | error error => rfl
  | ok answer =>
    obtain ⟨response, cached⟩ := answer
    dsimp only
    rw [Script.runOn_bind]
    generalize (s.writePlan response.stdout).runOn answered = outcome
    obtain ⟨outcome, written⟩ := outcome
    cases outcome with
    | error error => rfl
    | ok path =>
      dsimp only
      cases response.classify fallback with
      | error failure => rfl
      | ok outcome =>
        cases cached with
        | true => rfl
        | false =>
          dsimp only
          rw [if_pos (show (true && !false) = true from rfl), if_neg Bool.false_ne_true, Script.runOn_bind]
          generalize (s.storeResponse (cacheKey call.domain call.problem) response).runOn written = outcome'
          obtain ⟨outcome', stored⟩ := outcome'
          cases outcome' <;> rfl

-- ---------------------------------------------------------------------------
-- What is in the cache afterwards
-- ---------------------------------------------------------------------------

variable {s s' : ArtifactStore} {m : Machine} {call : PlannerCall}

/-- What the cache has for a key is a matter of the cache and the file of the entry alone. -/
theorem stateOf_alike (hCache : s'.cache = s.cache) {key key' : String} (hKey : key' = key) {t : FileTree}
    {node : Option FileNode} (hEntry : t.nodeAt? (s.entryPath key) = node) :
    s'.stateOf key' (t.nodeAt? (s'.entryPath key')) = s.stateOf key node := by
  subst hKey
  have hPath : s'.entryPath key' = s.entryPath key' := by
    unfold entryPath
    rw [hCache]
  rw [hPath, hEntry]
  unfold stateOf
  rw [hPath]

/-- No entry has the name of the file of the plan, or of the one that prepares it. -/
theorem not_isFileFor_plan (writer : Nat) (key : String) :
    ¬ Machine.IsFileFor writer "output_plan.txt" (key ++ ".json") := by
  rintro (hSame | hStaging)
  · have hLast := getLast?_entryName key
    rw [hSame] at hLast
    exact absurd hLast (by decide)
  · exact entryName_ne_stagingName _ _ _ hStaging

/-- Writing the plan changes the tree alone, and there no entry. -/
theorem writePlan_evolves (s : ArtifactStore) (text : String) (m : Machine) :
    ∃ t isMade, ((s.writePlan text).runOn m).2 = { m with tree := t } ∧
      m.tree.Evolves t (Machine.IsFileFor s.writer "output_plan.txt") isMade := by
  have hSlash : '/' ∉ "output_plan.txt".toList := by decide
  have hName : Path.IsProper "output_plan.txt" := ⟨by decide, by decide⟩
  obtain ⟨before, hNames, -⟩ := Path.names_join s.generated hSlash
  have hPath : Path.names s.planPath = before ++ ["output_plan.txt"] := hNames
  obtain ⟨t, hSame, hEvolves⟩ := m.publish_evolves s.writer text hPath hName
  refine ⟨t, _, ?_, hEvolves⟩
  unfold writePlan
  rw [(s.write_run s.planPath text m).1, hSame]

/-- Writing the plan leaves what the cache has for a key. -/
theorem entry_of_writePlan {key : String} (hKey : '/' ∉ key.toList) {node : FileNode}
    (hNode : m.tree.nodeAt? (s.entryPath key) = some node) (text : String) (s' : ArtifactStore) :
    ((s'.writePlan text).runOn m).2.tree.nodeAt? (s.entryPath key) = some node := by
  obtain ⟨t, isMade, hSame, hEvolves⟩ := s'.writePlan_evolves text m
  rw [hSame]
  exact hEvolves.nodeAt?_of_some (s.names_entryPath hKey) (isProper_entryName key) (not_isFileFor_plan _ key) hNode

/-- Where a response is present, there is a file. -/
theorem node_of_present {key : String} {node : Option FileNode} {response : PlannerResponse}
    (h : s.stateOf key node = .ok (.present response)) : ∃ file, node = some file := by
  cases node with
  | none => cases h
  | some file => exact ⟨file, rfl⟩

/-- Where a response comes from. -/
theorem respond_ok {key : String} {response : PlannerResponse} {cached : Bool} {answered : Machine}
    (h : (s.respond true key call).runOn m = (.ok (response, cached), answered)) :
    (cached = true ∧ s.stateOf key (m.tree.nodeAt? (s.entryPath key)) = .ok (.present response) ∧ answered = m) ∨
      (cached = false ∧ m.planner m.tree call = .ok response ∧ answered = { m with calls := call :: m.calls }) := by
  rw [respond_run] at h
  cases hState : s.stateOf key (m.tree.nodeAt? (s.entryPath key)) with
  | error error =>
    rw [hState] at h
    cases h
  | ok state =>
    rw [hState] at h
    cases state with
    | present response' =>
      cases h
      exact Or.inl ⟨rfl, rfl, rfl⟩
    | missing | unreadable =>
      dsimp only at h
      cases hAsk : m.planner m.tree call with
      | error failure =>
        rw [hAsk] at h
        cases h
      | ok response' =>
        rw [hAsk] at h
        cases h
        exact Or.inr ⟨rfl, rfl, rfl⟩

/-- How a plan is obtained. -/
theorem obtainPlan_ok {fallback : Float} {plan : Plan Float}
    (h : ((s.obtainPlan fallback true call).runOn m).1 = .ok plan) :
    let key := cacheKey call.domain call.problem
    let after := ((s.obtainPlan fallback true call).runOn m).2
    ∃ response cached answered outcome, (s.respond true key call).runOn m = (.ok (response, cached), answered) ∧
      response.classify fallback = .ok outcome ∧ plan = outcome.toPlan ∧
      let written := ((s.writePlan response.stdout).runOn answered).2
      (cached = true ∧ after = written) ∨
        (cached = false ∧ (∃ path, ((s.storeResponse key response).runOn written).1 = .ok path) ∧
          after = ((s.storeResponse key response).runOn written).2) := by
  intro key after
  have hRun := s.obtainPlan_run fallback call m
  generalize (s.respond true key call).runOn m = answer at hRun ⊢
  obtain ⟨answer, answered⟩ := answer
  cases answer with
  | error error =>
    rw [hRun] at h
    cases h
  | ok answer =>
    obtain ⟨response, cached⟩ := answer
    dsimp only at hRun
    refine ⟨response, cached, answered, ?_⟩
    generalize (s.writePlan response.stdout).runOn answered = outcome at hRun ⊢
    obtain ⟨outcome, written⟩ := outcome
    cases outcome with
    | error error =>
      rw [hRun] at h
      cases h
    | ok path =>
      dsimp only at hRun
      cases hClassify : response.classify fallback with
      | error failure =>
        rw [hClassify] at hRun
        rw [hRun] at h
        cases h
      | ok outcome =>
        rw [hClassify] at hRun
        dsimp only at hRun
        refine ⟨outcome, rfl, rfl, ?_⟩
        cases cached with
        | true =>
          rw [if_pos rfl] at hRun
          rw [hRun] at h
          cases h
          exact ⟨rfl, Or.inl ⟨rfl, congrArg Prod.snd hRun⟩⟩
        | false =>
          rw [if_neg Bool.false_ne_true] at hRun
          dsimp only
          generalize (s.storeResponse key response).runOn written = outcome' at hRun ⊢
          obtain ⟨outcome', stored⟩ := outcome'
          cases outcome' with
          | error error =>
            rw [hRun] at h
            cases h
          | ok path' =>
            rw [hRun] at h
            cases h
            exact ⟨rfl, Or.inr ⟨rfl, ⟨path', rfl⟩, congrArg Prod.snd hRun⟩⟩

/-- A response with which a plan was obtained says something, and is in the cache. -/
theorem state_of_obtainPlan {fallback : Float} {plan : Plan Float}
    (hStatus : ∀ response, m.planner m.tree call = .ok response → response.HasStatus)
    (h : ((s.obtainPlan fallback true call).runOn m).1 = .ok plan) :
    let key := cacheKey call.domain call.problem
    ∃ response cached outcome, ((s.respond true key call).runOn m).1 = .ok (response, cached) ∧
      response.classify fallback = .ok outcome ∧ plan = outcome.toPlan ∧
      s.stateOf key (((s.obtainPlan fallback true call).runOn m).2.tree.nodeAt? (s.entryPath key)) =
        .ok (.present response) := by
  intro key
  have hKey : '/' ∉ key.toList := slash_not_mem_cacheKey _ _
  obtain ⟨response, cached, answered, outcome, hRespond, hClassify, hPlan, hEnd⟩ := obtainPlan_ok h
  refine ⟨response, cached, outcome, congrArg Prod.fst hRespond, hClassify, hPlan, ?_⟩
  rcases hEnd with ⟨rfl, hAfter⟩ | ⟨rfl, ⟨path, hStore⟩, hAfter⟩
  · -- the response was there, and writing the plan leaves it there
    obtain ⟨-, hState, rfl⟩ := (respond_ok hRespond).resolve_right fun hAsked => nomatch hAsked.1
    obtain ⟨file, hFile⟩ := node_of_present hState
    rw [hAfter, entry_of_writePlan hKey hFile, ← hFile]
    exact hState
  · obtain ⟨-, hAsk, -⟩ := (respond_ok hRespond).resolve_left fun hCached => nomatch hCached.1
    have hOwn := CacheEntry.responseFor?_render key (hStatus response hAsk) key
    rw [if_pos rfl] at hOwn
    rw [hAfter, entry_of_store hKey hStore]
    unfold stateOf
    dsimp only
    rw [hOwn]

/-- Where a response is in the cache, a session takes it, asks no planner, and obtains what the response says. -/
theorem obtainPlan_of_present {fallback : Float} {response : PlannerResponse} {outcome : PlannerOutcome}
    (hState : s.stateOf (cacheKey call.domain call.problem)
      (m.tree.nodeAt? (s.entryPath (cacheKey call.domain call.problem))) = .ok (.present response))
    (hClassify : response.classify fallback = .ok outcome)
    (hWrite : ∃ path, ((s.writePlan response.stdout).runOn m).1 = .ok path) :
    ((s.obtainPlan fallback true call).runOn m).1 = .ok outcome.toPlan ∧
      ((s.obtainPlan fallback true call).runOn m).2.calls = m.calls := by
  have hRun := s.obtainPlan_run fallback call m
  rw [respond_run, hState] at hRun
  dsimp only at hRun
  obtain ⟨path, hWrite⟩ := hWrite
  obtain ⟨t, isMade, hSame, -⟩ := s.writePlan_evolves response.stdout m
  have hWritten : (s.writePlan response.stdout).runOn m = (.ok path, { m with tree := t }) := Prod.ext hWrite hSame
  rw [hWritten] at hRun
  dsimp only at hRun
  rw [hClassify] at hRun
  dsimp only at hRun
  rw [if_pos rfl] at hRun
  rw [hRun]
  exact ⟨rfl, rfl⟩

/-- With a response that says nothing no plan is obtained, and all that happens to files is that the plan is written. -/
theorem obtainPlan_of_failure {fallback : Float} {response : PlannerResponse} {cached : Bool} {failure : PlannerFailure}
    (hRespond : ((s.respond true (cacheKey call.domain call.problem) call).runOn m).1 = .ok (response, cached))
    (hFails : response.classify fallback = .error failure) :
    (∀ plan, ((s.obtainPlan fallback true call).runOn m).1 ≠ .ok plan) ∧
      ∃ isMade, m.tree.Evolves ((s.obtainPlan fallback true call).runOn m).2.tree
        (Machine.IsFileFor s.writer "output_plan.txt") isMade := by
  refine ⟨?_, ?_⟩
  · intro plan hOk
    obtain ⟨response', cached', answered, outcome, hRespond', hClassify, -⟩ := obtainPlan_ok hOk
    rw [hRespond'] at hRespond
    cases hRespond
    rw [hFails] at hClassify
    cases hClassify
  · generalize hAnswer : (s.respond true (cacheKey call.domain call.problem) call).runOn m = answer at hRespond
    obtain ⟨answer, answered⟩ := answer
    cases hRespond
    have hTree : answered.tree = m.tree := by
      rcases respond_ok hAnswer with ⟨-, -, rfl⟩ | ⟨-, -, rfl⟩ <;> rfl
    have hRun := s.obtainPlan_run fallback call m
    rw [hAnswer] at hRun
    dsimp only at hRun
    obtain ⟨t, isMade, hSame, hEvolves⟩ := s.writePlan_evolves response.stdout answered
    refine ⟨isMade, ?_⟩
    have hAfter : ((s.obtainPlan fallback true call).runOn m).2 = { answered with tree := t } := by
      rw [hRun, ← hSame]
      generalize (s.writePlan response.stdout).runOn answered = outcome
      obtain ⟨outcome, written⟩ := outcome
      cases outcome with
      | error error => rfl
      | ok path =>
        dsimp only
        rw [hFails]
    rw [hAfter, ← hTree]
    exact hEvolves

/--
**Sessions agree on the cache.** A session that uses the cache and obtains a plan has a response from which the plan
was made. Any later session with the same texts and the same cache, whose file of the entry is as the first one left
it, obtains what that response says with its own fallback duration, and asks no planner, as long as it can write the
plan. With a response that says nothing no plan is obtained, and no entry of the cache is written.
-/
theorem obtainPlan_coherent (s : ArtifactStore) (fallback : Float) (call : PlannerCall) (m : Machine)
    (hStatus : ∀ response, m.planner m.tree call = .ok response → response.HasStatus) :
    let key := cacheKey call.domain call.problem
    let first := (s.obtainPlan fallback true call).runOn m
    (∀ plan, first.1 = .ok plan →
      ∃ response cached, ((s.respond true key call).runOn m).1 = .ok (response, cached) ∧
        (∃ outcome, response.classify fallback = .ok outcome ∧ plan = outcome.toPlan) ∧
        ∀ (s' : ArtifactStore) (fallback' : Float) (call' : PlannerCall) (m' : Machine),
          s'.cache = s.cache → call'.domain = call.domain → call'.problem = call.problem →
          m'.tree.nodeAt? (s.entryPath key) = first.2.tree.nodeAt? (s.entryPath key) →
          (∃ path, ((s'.writePlan response.stdout).runOn m').1 = .ok path) →
            let second := (s'.obtainPlan fallback' true call').runOn m'
            ∃ outcome, response.classify fallback' = .ok outcome ∧ second.1 = .ok outcome.toPlan ∧
              second.2.calls = m'.calls) ∧
    ∀ response cached failure, ((s.respond true key call).runOn m).1 = .ok (response, cached) →
      response.classify fallback = .error failure →
        (∀ plan, first.1 ≠ .ok plan) ∧
          ∀ (place : Location) (other text : String),
            first.2.tree.node? (place ++ [other ++ ".json"]) = some (.file text) ↔
              m.tree.node? (place ++ [other ++ ".json"]) = some (.file text) := by
  dsimp only
  refine ⟨?_, ?_⟩
  · intro plan hPlan
    obtain ⟨response, cached, outcome, hRespond, hClassify, hSays, hState⟩ := state_of_obtainPlan hStatus hPlan
    refine ⟨response, cached, hRespond, ⟨outcome, hClassify, hSays⟩, ?_⟩
    intro s' fallback' call' m' hCache hDomain hProblem hEntry hWrite
    obtain ⟨outcome', hClassify'⟩ := PlannerResponse.classify_alike hClassify fallback'
    have hKey : cacheKey call'.domain call'.problem = cacheKey call.domain call.problem := by rw [hDomain, hProblem]
    have hState' := (stateOf_alike hCache hKey hEntry).trans hState
    exact ⟨outcome', hClassify', obtainPlan_of_present hState' hClassify' hWrite⟩
  · intro response cached failure hRespond hFails
    obtain ⟨hNone, isMade, hEvolves⟩ := obtainPlan_of_failure hRespond hFails
    exact ⟨hNone, fun place other text => hEvolves.file_iff (not_isFileFor_plan _ other) place text⟩

/-- A planner prints an action without a duration beside one that has one. A second session, with another fallback
duration and another number, obtains its own reading of that from the cache. -/
theorem obtainPlan_coherent_twice :
    let s : ArtifactStore := ⟨"g", "c", 7⟩
    let response : PlannerResponse := ⟨"(a)\n(b)[2]", "", 0⟩
    let call : PlannerCall := ⟨"d", "p", "", ""⟩
    let m := Machine.fresh ⟨[], .empty⟩ fun _ _ => .ok response
    let first := (s.obtainPlan 5 true call).runOn m
    let second := (({ s with writer := 8 } : ArtifactStore).obtainPlan 9 true call).runOn first.2
    first.1 = .ok ⟨.temporal, [⟨0, 5, "a", [], 1⟩, ⟨1, 2, "b", [], 2⟩], []⟩ ∧
      second.1 = .ok ⟨.temporal, [⟨0, 9, "a", [], 1⟩, ⟨1, 2, "b", [], 2⟩], []⟩ ∧ second.2.calls = first.2.calls := by
  intro s response call m first second
  have hFirst : (s.obtainPlan 5 true call).runOn m = first := rfl
  have hSecond : (({ s with writer := 8 } : ArtifactStore).obtainPlan 9 true call).runOn first.2 = second := rfl
  clear_value first second
  have hKey : cacheKey call.domain call.problem =
      "aefe3b6174119e5c0086e752db367ec395435e867844794b5664282c0da250fe" := by
    decide +kernel
  have hRespond : ((s.respond true (cacheKey call.domain call.problem) call).runOn m).1 = .ok (response, false) := by
    rw [hKey]
    decide +kernel
  have hPlan : first.1 = .ok ⟨.temporal, [⟨0, 5, "a", [], 1⟩, ⟨1, 2, "b", [], 2⟩], []⟩ ∧
      ((({ s with writer := 8 } : ArtifactStore).writePlan response.stdout).runOn first.2).1 =
        .ok "g/output_plan.txt" := by
    rw [← hFirst, obtainPlan_run, hKey]
    decide +kernel
  obtain ⟨hPlan, hWrite⟩ := hPlan
  have hStatus : ∀ response, m.planner m.tree call = .ok response → response.HasStatus := by
    rintro _ ⟨⟩
    exact ⟨by decide, by decide⟩
  have hCoherent := (obtainPlan_coherent s 5 call m hStatus).1
  rw [hFirst] at hCoherent
  obtain ⟨response', cached, hAnswer, -, hLater⟩ := hCoherent _ hPlan
  have hSame : response' = response := congrArg Prod.fst (Except.ok.inj (hAnswer.symm.trans hRespond))
  rw [hSame] at hLater
  obtain ⟨outcome, hClassify, hObtained, hCalls⟩ :=
    hLater { s with writer := 8 } 9 call first.2 rfl rfl rfl rfl ⟨_, hWrite⟩
  rw [hSecond] at hObtained hCalls
  have hOutcome : (response.classify 9).map PlannerOutcome.toPlan =
      .ok ⟨.temporal, [⟨0, 9, "a", [], 1⟩, ⟨1, 2, "b", [], 2⟩], []⟩ := by
    decide
  rw [hClassify] at hOutcome
  rw [hObtained, Except.ok.inj hOutcome]
  exact ⟨hPlan, rfl, hCalls⟩

end ArtifactStore

end PlanReplay

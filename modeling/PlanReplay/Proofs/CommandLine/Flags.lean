import Mathlib.Data.List.Induction
import PlanReplay.CommandLine.Options

/-!
# The flags of a run

A run is given by flags, each alone or with a value, and in any order. Of the groups with one flag the last one counts, and
groups with different flags do not touch the same option. So the command is told by the last group of each flag.

* `CommandLine.FlagGroup`, `CommandLine.FlagGroup.WellFormed` — a flag as it is given.
* `CommandLine.lastOf`, `CommandLine.optionsOfLast` — the last group of each flag, and the options that these make.
* `CommandLine.readSettings_words` — groups are read one after the other, whatever their values look like.
* `CommandLine.foldl_apply` — the options are those of the last groups.
* `CommandLine.parse_run` — the law.
-/

namespace PlanReplay

open Decimal

namespace CommandLine

-- ---------------------------------------------------------------------------
-- Flags as they are given
-- ---------------------------------------------------------------------------

/-- The flags of a run. -/
inductive RunFlag where
  | problem
  | plan
  | domain
  | kind
  | variant
  | config
  | speed
  | home
  | planner
  | plannerUrl
  | plannerTimeout
  | solverJar
  | realtime
  | noCache
deriving DecidableEq

def RunFlag.name : RunFlag → String
  | problem => "--problem"
  | plan => "--plan"
  | domain => "--domain"
  | kind => "--kind"
  | variant => "--variant"
  | config => "--config"
  | speed => "--speed"
  | home => "--home"
  | planner => "--planner"
  | plannerUrl => "--planner-url"
  | plannerTimeout => "--planner-timeout-secs"
  | solverJar => "--solver-jar"
  | realtime => "--realtime"
  | noCache => "--no-cache"

/-- A flag as it is given, with a value or without. -/
structure FlagGroup where
  flag : RunFlag
  value : Option String
deriving DecidableEq

namespace FlagGroup

/-- The arguments of a group. -/
def words (g : FlagGroup) : List String := g.flag.name :: g.value.toList

/-- What a group says. A group whose flag is not given in that way, or whose value is not one of the flag, says nothing. -/
def setting? : FlagGroup → Option RunSetting
  | ⟨.problem, some path⟩ => some (.problem path)
  | ⟨.plan, some path⟩ => some (.plan path)
  | ⟨.domain, some path⟩ => some (.domain path)
  | ⟨.kind, some value⟩ => (DomainKind.ofName? value).map .kind
  | ⟨.variant, some value⟩ => (DomainVariant.ofName? value).map .variant
  | ⟨.config, some path⟩ => some (.config path)
  | ⟨.speed, some value⟩ =>
    ((readFloat? value).filter fun speed => speed.isFinite && decide (0 < speed)).map .speed
  | ⟨.home, some path⟩ => some (.home path)
  | ⟨.planner, some value⟩ => (PlannerBackend.ofName? value).map .backend
  | ⟨.plannerUrl, some url⟩ => some (.url url)
  | ⟨.plannerTimeout, some value⟩ => (readNat64? value).map .timeout
  | ⟨.solverJar, some path⟩ => some (.solverJar path)
  | ⟨.realtime, none⟩ => some .realtime
  | ⟨.noCache, none⟩ => some .noCache
  | _ => none

/-- A flag alone that needs no value, or a flag with a value that can be read for it. -/
def WellFormed (g : FlagGroup) : Prop := ∃ setting, g.setting? = some setting

instance (g : FlagGroup) : Decidable g.WellFormed := decidable_of_iff (g.setting?.isSome = true) Option.isSome_iff_exists

end FlagGroup

/-- The arguments of groups. -/
def words (groups : List FlagGroup) : List String := groups.flatMap FlagGroup.words

-- ---------------------------------------------------------------------------
-- Groups are read one after the other
-- ---------------------------------------------------------------------------

variable {g : FlagGroup} {groups others : List FlagGroup} {setting : RunSetting}

theorem readSettings_bare {flag : String} (h : bareSetting? flag = some setting) (rest : List String) :
    readSettings (flag :: rest) = (readSettings rest).map (setting :: ·) := by
  conv_lhs => unfold readSettings
  rw [h]

theorem readSettings_valued {flag value : String} {read : String → Except UsageError RunSetting}
    (hBare : bareSetting? flag = none) (hRead : valuedSetting? flag = some read) (hValue : read value = .ok setting)
    (rest : List String) : readSettings (flag :: value :: rest) = (readSettings rest).map (setting :: ·) := by
  conv_lhs => unfold readSettings
  simp only [hBare, hRead, hValue]

/-- How the flag of a group is looked up, alone or with its value. -/
theorem FlagGroup.read_cases (h : g.setting? = some setting) :
    g.value = none ∧ bareSetting? g.flag.name = some setting ∨
      ∃ value read, g.value = some value ∧ bareSetting? g.flag.name = none ∧ valuedSetting? g.flag.name = some read ∧
        read value = .ok setting := by
  obtain ⟨flag, value⟩ := g
  cases value with
  | none =>
    refine Or.inl ⟨rfl, ?_⟩
    cases flag with
    | realtime | noCache => exact h
    | problem | plan | domain | kind | variant | config | speed | home | planner | plannerUrl | plannerTimeout | solverJar =>
      cases h
  | some value =>
    refine Or.inr ⟨value, ?_⟩
    cases flag with
    | realtime | noCache => cases h
    | problem | plan | domain | config | home | plannerUrl | solverJar =>
      cases h
      exact ⟨_, rfl, rfl, rfl, rfl⟩
    | kind | variant | planner | plannerTimeout =>
      rw [FlagGroup.setting?] at h
      obtain ⟨x, hRead, rfl⟩ := Option.map_eq_some_iff.mp h
      refine ⟨_, rfl, rfl, rfl, ?_⟩
      simp [readVariant, readValue, hRead, Except.map]
    | speed =>
      rw [FlagGroup.setting?] at h
      obtain ⟨speed, hRead, rfl⟩ := Option.map_eq_some_iff.mp h
      obtain ⟨hRead, hUsable⟩ := Option.filter_eq_some_iff.mp hRead
      refine ⟨_, rfl, rfl, rfl, ?_⟩
      rw [Bool.and_eq_true, decide_eq_true_eq] at hUsable
      simp [readSpeed, hRead, hUsable, Except.map]

/-- A group is read as a whole, whatever its value looks like. -/
theorem readSettings_group (h : g.setting? = some setting) (rest : List String) :
    readSettings (g.words ++ rest) = (readSettings rest).map (setting :: ·) := by
  rcases FlagGroup.read_cases h with ⟨hAlone, hBare⟩ | ⟨value, read, hValue, hNotBare, hValued, hRead⟩
  · rw [FlagGroup.words, hAlone]
    exact readSettings_bare hBare rest
  · rw [FlagGroup.words, hValue]
    exact readSettings_valued hNotBare hValued hRead rest

theorem readSettings_words (h : ∀ g ∈ groups, g.WellFormed) :
    readSettings (words groups) = .ok (groups.filterMap FlagGroup.setting?) := by
  induction groups with
  | nil => rfl
  | cons g groups ih =>
    rw [List.forall_mem_cons] at h
    obtain ⟨⟨setting, hSetting⟩, hRest⟩ := h
    rw [words, List.flatMap_cons, readSettings_group hSetting, List.filterMap_cons_some hSetting]
    exact congrArg (Except.map (setting :: ·)) (ih hRest)

-- ---------------------------------------------------------------------------
-- The last group of each flag
-- ---------------------------------------------------------------------------

/-- The last group with a flag. -/
def lastOf (groups : List FlagGroup) (flag : RunFlag) : Option FlagGroup :=
  (groups.filter fun g => g.flag = flag).getLast?

/-- Notes a group as the last one of its flag. -/
def note (last : RunFlag → Option FlagGroup) (g : FlagGroup) (flag : RunFlag) : Option FlagGroup :=
  if g.flag = flag then some g else last flag

theorem lastOf_concat (groups : List FlagGroup) (g : FlagGroup) : lastOf (groups ++ [g]) = note (lastOf groups) g := by
  funext flag
  unfold lastOf note
  rw [List.filter_append]
  by_cases h : g.flag = flag <;> simp [h]

/-- The value of a flag, by the last group with it. -/
def valueOf (last : RunFlag → Option FlagGroup) (flag : RunFlag) : Option String := (last flag).bind (·.value)

/-- The options that the last group of each flag makes, for a problem. -/
def optionsOfLast (problem : String) (last : RunFlag → Option FlagGroup) : RunOptions where
  problem := problem
  plan := valueOf last .plan
  domain := valueOf last .domain
  kind := (valueOf last .kind).bind DomainKind.ofName?
  variant := ((valueOf last .variant).bind DomainVariant.ofName?).getD .classical
  config := valueOf last .config
  speed := (valueOf last .speed).bind readFloat?
  realtime := (last .realtime).isSome
  useCache := (last .noCache).isNone
  home := valueOf last .home
  planner :=
    { backend := ((valueOf last .planner).bind PlannerBackend.ofName?).getD PlannerSettings.default.backend
      url := (valueOf last .plannerUrl).getD PlannerSettings.default.url
      timeoutSeconds := ((valueOf last .plannerTimeout).bind readNat64?).getD PlannerSettings.default.timeoutSeconds
      solverJar := (valueOf last .solverJar).getD PlannerSettings.default.solverJar }

/-- Options and problem as the last group of each flag makes them. -/
def partialOfLast (last : RunFlag → Option FlagGroup) : PartialOptions :=
  ⟨valueOf last .problem, optionsOfLast "" last⟩

/-- What a group says is taken into the options, and touches nothing that groups with other flags say. -/
theorem apply_partialOfLast (h : g.setting? = some setting) (last : RunFlag → Option FlagGroup) :
    (partialOfLast last).apply setting = partialOfLast (note last g) := by
  obtain ⟨flag, value⟩ := g
  cases value with
  | none =>
    cases flag with
    | realtime | noCache =>
      cases h
      rfl
    | problem | plan | domain | kind | variant | config | speed | home | planner | plannerUrl | plannerTimeout | solverJar =>
      cases h
  | some value =>
    cases flag with
    | realtime | noCache => cases h
    | problem | plan | domain | config | home | plannerUrl | solverJar =>
      cases h
      rfl
    | kind | variant | planner | plannerTimeout =>
      rw [FlagGroup.setting?] at h
      obtain ⟨x, hRead, rfl⟩ := Option.map_eq_some_iff.mp h
      simp [PartialOptions.apply, partialOfLast, optionsOfLast, valueOf, note, hRead]
    | speed =>
      rw [FlagGroup.setting?] at h
      obtain ⟨speed, hRead, rfl⟩ := Option.map_eq_some_iff.mp h
      have hRead := (Option.filter_eq_some_iff.mp hRead).1
      simp [PartialOptions.apply, partialOfLast, optionsOfLast, valueOf, note, hRead]

/-- **The options are those of the last groups.** The induction takes groups away at the end, as that is where the last
ones are. -/
theorem foldl_apply (h : ∀ g ∈ groups, g.WellFormed) :
    (groups.filterMap FlagGroup.setting?).foldl PartialOptions.apply ⟨none, .ofProblem ""⟩ =
      partialOfLast (lastOf groups) := by
  induction groups using List.reverseRecOn with
  | nil => rfl
  | append_singleton groups g ih =>
    rw [List.forall_mem_append, List.forall_mem_singleton] at h
    obtain ⟨hGroups, setting, hSetting⟩ := h
    rw [List.filterMap_append, List.foldl_append, ih hGroups, lastOf_concat, ← apply_partialOfLast hSetting]
    simp [hSetting]

-- ---------------------------------------------------------------------------
-- The command
-- ---------------------------------------------------------------------------

/-- The command that the last group of each flag makes. -/
def commandOfLast (last : RunFlag → Option FlagGroup) : Except UsageError Command :=
  match valueOf last .problem with
  | none => .error (.missingFlag "run" "--problem")
  | some problem =>
    if (valueOf last .plan).isSome ∧ (valueOf last .domain).isSome then .error .planAndDomain
    else .ok (.run (optionsOfLast problem last))

/-- The command is that of the last groups, also where there is none. -/
theorem parse_words (h : ∀ g ∈ groups, g.WellFormed) :
    parse ("run" :: words groups) = commandOfLast (lastOf groups) := by
  show parseRun (words groups) = _
  rw [parseRun, readSettings_words h, commandOfLast]
  show (optionsOf (groups.filterMap FlagGroup.setting?)).map Command.run = _
  rw [optionsOf, foldl_apply h]
  dsimp only [partialOfLast]
  cases valueOf (lastOf groups) .problem with
  | none => rfl
  | some problem => exact apply_ite (Except.map Command.run) _ _ _

theorem mem_of_lastOf {flag : RunFlag} (h : lastOf groups flag = some g) : g ∈ groups ∧ g.flag = flag := by
  obtain ⟨hMem, hFlag⟩ := List.mem_filter.mp (List.mem_of_getLast? h)
  exact ⟨hMem, of_decide_eq_true hFlag⟩

theorem exists_lastOf {flag : RunFlag} (h : ∃ g ∈ groups, g.flag = flag) : ∃ g, lastOf groups flag = some g := by
  obtain ⟨g, hMem, hFlag⟩ := h
  have hSome : groups.filter (fun g => g.flag = flag) ≠ [] :=
    List.ne_nil_of_mem (List.mem_filter.mpr ⟨hMem, decide_eq_true hFlag⟩)
  exact ⟨_, List.getLast?_eq_some_getLast hSome⟩

theorem given_of_valueOf {flag : RunFlag} (h : (valueOf (lastOf groups) flag).isSome = true) :
    ∃ g ∈ groups, g.flag = flag := by
  obtain ⟨value, hValue⟩ := Option.isSome_iff_exists.mp h
  obtain ⟨g, hLast, -⟩ := Option.bind_eq_some_iff.mp hValue
  exact ⟨g, mem_of_lastOf hLast⟩

/-- A problem that is given has a path. -/
theorem exists_problem (hFormed : ∀ g ∈ groups, g.WellFormed) (h : ∃ g ∈ groups, g.flag = .problem) :
    ∃ problem, valueOf (lastOf groups) .problem = some problem := by
  obtain ⟨⟨flag, value⟩, hLast⟩ := exists_lastOf h
  obtain ⟨hMem, hFlag⟩ := mem_of_lastOf hLast
  obtain ⟨setting, hSetting⟩ := hFormed _ hMem
  cases hFlag
  cases value with
  | none => cases hSetting
  | some problem => exact ⟨problem, by rw [valueOf, hLast]; rfl⟩

/-- A group with the flag of a later one is not the last one of any flag. -/
theorem lastOf_erase {before after : List FlagGroup} (h : ∃ later ∈ after, later.flag = g.flag) :
    lastOf (before ++ after) = lastOf (before ++ g :: after) := by
  funext flag
  unfold lastOf
  rw [List.filter_append, List.filter_append, List.filter_cons, List.getLast?_append, List.getLast?_append]
  by_cases hFlag : g.flag = flag
  · obtain ⟨later, hMem, hSame⟩ := h
    obtain ⟨last, hLast⟩ := exists_lastOf ⟨later, hMem, hSame.trans hFlag⟩
    rw [lastOf] at hLast
    simp [hFlag, List.getLast?_cons, hLast]
  · simp [hFlag]

/-- **Only the last group of each flag counts.** Take any well-formed groups.

* If the problem is given, and not both a plan and a domain, they are accepted, with the options that the last group of
  each flag makes.
* Groups with the same last group of each flag make the same command.
* So do the groups in another order, as long as those with the same flag keep theirs.
* So do the groups without one that is followed by another one with its flag. -/
theorem parse_run (hFormed : ∀ g ∈ groups, g.WellFormed) :
    ((∃ g ∈ groups, g.flag = .problem) →
      ¬ ((∃ g ∈ groups, g.flag = .plan) ∧ ∃ g ∈ groups, g.flag = .domain) →
      ∃ problem, valueOf (lastOf groups) .problem = some problem ∧
        parse ("run" :: words groups) = .ok (.run (optionsOfLast problem (lastOf groups)))) ∧
    (∀ others : List FlagGroup, (∀ g ∈ others, g.WellFormed) → lastOf others = lastOf groups →
      parse ("run" :: words others) = parse ("run" :: words groups)) ∧
    (∀ others : List FlagGroup, others.Perm groups →
      (∀ flag, others.filter (fun g => g.flag = flag) = groups.filter fun g => g.flag = flag) →
      parse ("run" :: words others) = parse ("run" :: words groups)) ∧
    ∀ before g after, groups = before ++ g :: after → (∃ later ∈ after, later.flag = g.flag) →
      parse ("run" :: words (before ++ after)) = parse ("run" :: words groups) := by
  have hSame {others : List FlagGroup} (hOthers : ∀ g ∈ others, g.WellFormed) (hLast : lastOf others = lastOf groups) :
      parse ("run" :: words others) = parse ("run" :: words groups) := by
    rw [parse_words hOthers, parse_words hFormed, hLast]
  refine ⟨?_, fun others => hSame, ?_, ?_⟩
  · intro hProblem hOne
    obtain ⟨problem, hPath⟩ := exists_problem hFormed hProblem
    refine ⟨problem, hPath, ?_⟩
    rw [parse_words hFormed, commandOfLast, hPath]
    exact if_neg fun hBoth => hOne ⟨given_of_valueOf hBoth.1, given_of_valueOf hBoth.2⟩
  · intro others hPerm hOrder
    refine hSame (fun g hMem => hFormed g (hPerm.mem_iff.mp hMem)) ?_
    funext flag
    rw [lastOf, hOrder, lastOf]
  · rintro before g after rfl hLater
    refine hSame (fun other hMem => hFormed other ?_) (lastOf_erase hLater)
    exact (List.sublist_cons_self g after).append_left before |>.subset hMem

/-- Values that look like flags, and a problem and a speed that are given twice. -/
theorem parse_run_of_repetitions :
    let first : FlagGroup := ⟨.problem, some "--plan"⟩
    let rest : List FlagGroup :=
      [⟨.speed, some "4"⟩, ⟨.realtime, none⟩, ⟨.kind, some "robot"⟩, ⟨.problem, some "p.json"⟩, ⟨.plan, some "--domain"⟩,
        ⟨.speed, some "0.5"⟩]
    let others : List FlagGroup :=
      [⟨.plan, some "--domain"⟩, ⟨.speed, some "4"⟩, ⟨.speed, some "0.5"⟩, first, ⟨.problem, some "p.json"⟩,
        ⟨.kind, some "robot"⟩, ⟨.realtime, none⟩]
    (∀ g ∈ first :: rest, g.WellFormed) ∧
      parse ("run" :: words (first :: rest)) = .ok (.run { RunOptions.ofProblem "p.json" with
        plan := some "--domain", kind := some .robot, speed := some 0.5, realtime := true }) ∧
      parse ("run" :: words rest) = parse ("run" :: words (first :: rest)) ∧
      parse ("run" :: words others) = parse ("run" :: words (first :: rest)) := by
  intro first rest others
  have hFormed : ∀ g ∈ first :: rest, g.WellFormed := by decide
  have hOrder : ∀ flag, others.filter (fun g => g.flag = flag) = (first :: rest).filter fun g => g.flag = flag := by
    intro flag
    cases flag <;> decide
  obtain ⟨hAccepted, -, hReordered, hErased⟩ := parse_run hFormed
  obtain ⟨problem, hProblem, hParse⟩ := hAccepted (by decide) (by decide)
  cases (show valueOf (lastOf (first :: rest)) .problem = some "p.json" by decide).symm.trans hProblem
  refine ⟨hFormed, hParse.trans ?_, hErased [] first rest rfl (by decide),
    hReordered others (by decide) hOrder⟩
  decide

end CommandLine

end PlanReplay

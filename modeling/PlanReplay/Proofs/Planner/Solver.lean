import PlanReplay.Planner.Solver
import PlanReplay.Proofs.Text.Replace

/-!
# The arguments of a solver

Every argument of a solver is searched for the placeholder of the domain, and what comes out of that for the one of the
problem. So the path of the problem is put in as it is, but the path of the domain is searched once more, and so is the name
of an archive, which stands among the arguments, for both placeholders.

* `Solver.filled_eq_self_iff` — which arguments stay as they are, for paths that could not give a placeholder back.
* `Solver.argsFor_ofJar` — the arguments of the solver in an archive, and when they are the texts that it is given.
-/

namespace PlanReplay.Solver

open Text

variable {arg domainPath problemPath : String}

/-- An argument for two files. -/
def filled (domainPath problemPath arg : String) : String :=
  replaceAll problemPlaceholder problemPath (replaceAll domainPlaceholder domainPath arg)

theorem domainPlaceholder_ne_nil : domainPlaceholder.toList ≠ [] := by decide

theorem problemPlaceholder_ne_nil : problemPlaceholder.toList ≠ [] := by decide

theorem filled_of_not_occurs (hDomain : ¬ Occurs domainPlaceholder arg) (hProblem : ¬ Occurs problemPlaceholder arg) :
    filled domainPath problemPath arg = arg := by
  rw [filled, replaceAll_of_not_occurs hDomain, replaceAll_of_not_occurs hProblem]

theorem filled_domainPlaceholder (domainPath problemPath : String) :
    filled domainPath problemPath domainPlaceholder = replaceAll problemPlaceholder problemPath domainPath := by
  rw [filled, replaceAll_self domainPlaceholder_ne_nil]

theorem filled_problemPlaceholder (domainPath problemPath : String) :
    filled domainPath problemPath problemPlaceholder = problemPath := by
  have hOther : ¬ Occurs domainPlaceholder problemPlaceholder := by decide
  rw [filled, replaceAll_of_not_occurs hOther, replaceAll_self problemPlaceholder_ne_nil]

/-- An argument with a placeholder does not stay as it is where the paths have no opening brace, as it loses one. -/
theorem filled_eq_self_iff (hDomainPath : '{' ∉ domainPath.toList) (hProblemPath : '{' ∉ problemPath.toList) :
    filled domainPath problemPath arg = arg ↔ ¬ Occurs domainPlaceholder arg ∧ ¬ Occurs problemPlaceholder arg := by
  have hDomainBrace : '{' ∈ domainPlaceholder.toList := by decide
  have hProblemBrace : '{' ∈ problemPlaceholder.toList := by decide
  constructor
  · intro hSame
    have hCount : (filled domainPath problemPath arg).toList.count '{' = arg.toList.count '{' := by rw [hSame]
    simp only [filled, replaceAll, String.toList_ofList] at hCount
    have hDomain : ¬ Occurs domainPlaceholder arg := by
      intro hOccurs
      have hFirst := count_replaceFrom_lt hDomainBrace hDomainPath hOccurs
      have hSecond := count_replaceFrom_le problemPlaceholder_ne_nil hProblemPath
        (replaceFrom domainPlaceholder.toList domainPath.toList 0 arg.toList)
      omega
    refine ⟨hDomain, fun hOccurs => ?_⟩
    have hSecond := count_replaceFrom_lt hProblemBrace hProblemPath hOccurs
    rw [replaceFrom_of_absent hDomain] at hCount
    omega
  · rintro ⟨hDomain, hProblem⟩
    exact filled_of_not_occurs hDomain hProblem

theorem argsFor_ofJar_eq (jar domainPath problemPath : String) :
    (ofJar jar).argsFor domainPath problemPath =
      ["-jar", filled domainPath problemPath jar, "-domain", replaceAll problemPlaceholder problemPath domainPath,
        "-problem", problemPath] := by
  have hJar : filled domainPath problemPath "-jar" = "-jar" := filled_of_not_occurs (by decide) (by decide)
  have hDomain : filled domainPath problemPath "-domain" = "-domain" :=
    filled_of_not_occurs (by decide) (by decide)
  have hProblem : filled domainPath problemPath "-problem" = "-problem" :=
    filled_of_not_occurs (by decide) (by decide)
  show ["-jar", jar, "-domain", domainPlaceholder, "-problem", problemPlaceholder].map (filled domainPath problemPath) = _
  simp only [List.map_cons, List.map_nil, hJar, hDomain, hProblem, filled_domainPlaceholder, filled_problemPlaceholder]

/-- **The arguments of the solver in an archive.** The path of the problem is the last argument as it is. In the path of
the domain, the path of the problem stands in every place of the placeholder for it, and the name of the archive is filled
in like any other argument. So the solver gets the texts that are given exactly if

* the name of the archive stays as it is: it does if no placeholder occurs in it and, for paths without an opening brace,
  only then;
* the placeholder of the problem does not occur in the path of the domain, or is itself the path of the problem. -/
theorem argsFor_ofJar (jar domainPath problemPath : String) :
    let archive := filled domainPath problemPath jar
    ∃ domain,
      (ofJar jar).argsFor domainPath problemPath = ["-jar", archive, "-domain", domain, "-problem", problemPath] ∧
      (∃ first later, problemPlaceholder.toList.intercalate (first :: later) = domainPath.toList ∧
        (∀ piece ∈ first :: later, ¬ problemPlaceholder.toList <:+: piece) ∧
        domain.toList = problemPath.toList.intercalate (first :: later)) ∧
      ((ofJar jar).argsFor domainPath problemPath = ["-jar", jar, "-domain", domainPath, "-problem", problemPath] ↔
        archive = jar ∧ (Occurs problemPlaceholder domainPath → problemPath = problemPlaceholder)) ∧
      (¬ Occurs domainPlaceholder jar → ¬ Occurs problemPlaceholder jar → archive = jar) ∧
      ('{' ∉ domainPath.toList → '{' ∉ problemPath.toList → archive = jar →
        ¬ Occurs domainPlaceholder jar ∧ ¬ Occurs problemPlaceholder jar) := by
  refine ⟨_, argsFor_ofJar_eq jar domainPath problemPath, ?_, ?_, filled_of_not_occurs,
    fun hDomainPath hProblemPath => (filled_eq_self_iff hDomainPath hProblemPath).mp⟩
  · obtain ⟨first, later, hText, hFree, hPieces⟩ := exists_pieces problemPlaceholder_ne_nil domainPath.toList
    refine ⟨first, later, hText, hFree, ?_⟩
    rw [replaceAll, String.toList_ofList, hPieces]
  · rw [argsFor_ofJar_eq, ← replaceAll_eq_self_iff problemPlaceholder_ne_nil]
    simp

/-- The placeholder of the domain in the path of the domain, and both of them in the path of the problem, do no harm. -/
theorem argsFor_ofJar_of_braces :
    let jar := "enhsp-20.jar"
    let domainPath := "/tmp/{domain}/domain.pddl"
    let problemPath := "/tmp/{problem}/{domain}.pddl"
    ¬ Occurs domainPlaceholder jar ∧ ¬ Occurs problemPlaceholder jar ∧ ¬ Occurs problemPlaceholder domainPath ∧
      (ofJar jar).argsFor domainPath problemPath = ["-jar", jar, "-domain", domainPath, "-problem", problemPath] := by
  intro jar domainPath problemPath
  have hDomain : ¬ Occurs domainPlaceholder jar := by decide
  have hProblem : ¬ Occurs problemPlaceholder jar := by decide
  have hPath : ¬ Occurs problemPlaceholder domainPath := by decide
  obtain ⟨domain, -, -, hGiven, hArchive, -⟩ := argsFor_ofJar jar domainPath problemPath
  exact ⟨hDomain, hProblem, hPath, hGiven.mpr ⟨hArchive hDomain hProblem, fun hOccurs => absurd hOccurs hPath⟩⟩

/-- A directory that is named as the placeholder of the problem is taken for it. -/
theorem argsFor_ofJar_searches_path :
    let domainPath := "/tmp/{problem}/domain.pddl"
    (ofJar "enhsp-20.jar").argsFor domainPath "/tmp/problem.pddl" =
        ["-jar", "enhsp-20.jar", "-domain", "/tmp//tmp/problem.pddl/domain.pddl", "-problem", "/tmp/problem.pddl"] ∧
      ¬ ∀ jar domainPath problemPath, (ofJar jar).argsFor domainPath problemPath =
        ["-jar", jar, "-domain", domainPath, "-problem", problemPath] := by
  intro domainPath
  have hArgs : (ofJar "enhsp-20.jar").argsFor domainPath "/tmp/problem.pddl" =
      ["-jar", "enhsp-20.jar", "-domain", "/tmp//tmp/problem.pddl/domain.pddl", "-problem", "/tmp/problem.pddl"] := by
    decide
  refine ⟨hArgs, fun hGiven => ?_⟩
  rw [hGiven] at hArgs
  exact absurd hArgs (by decide)

end PlanReplay.Solver

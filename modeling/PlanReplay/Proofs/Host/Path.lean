import Mathlib.Data.List.Induction
import PlanReplay.Host.Path
import PlanReplay.Proofs.Text.Cut

/-!
# Names of paths

A path is read as its names, each of which leads from one location to the next.

* `Path.enter`, `Path.walk`, `Path.arrive` — where names lead, on the way and in the end.
* `Path.walk_prefix` — names that do not go up lead through the beginnings of where they lead.
* `Path.names_join`, `Path.intercalate_names`, `Path.directory_eq` — the names of joined paths and of directories.
* `Path.names_intercalate`, `Path.names_directory` — the names of a path that is put together.
* `Path.names_staging` — the last name of the file that prepares another one.
* `Path.stagingName_injective` — the name tells who prepares which file.
-/

namespace PlanReplay

-- ---------------------------------------------------------------------------
-- Texts in pieces
-- ---------------------------------------------------------------------------

namespace Text

/-- A text with a separator is cut in one way only, at the last separator. -/
theorem append_cons_inj {c : Char} {before before' rest rest' : List Char} (hRest : c ∉ rest) (hRest' : c ∉ rest')
    (h : before ++ c :: rest = before' ++ c :: rest') : before = before' ∧ rest = rest' := by
  rcases List.append_eq_append_iff.mp h with ⟨more, rfl, hMore⟩ | ⟨more, rfl, hMore⟩
  · cases more with
    | nil => exact ⟨(List.append_nil _).symm, (List.cons.inj hMore).2⟩
    | cons d more =>
      rw [List.cons_append] at hMore
      exact absurd ((List.cons.inj hMore).2 ▸ List.mem_append_right more List.mem_cons_self) hRest
  · cases more with
    | nil => exact ⟨List.append_nil _, (List.cons.inj hMore).2.symm⟩
    | cons d more =>
      rw [List.cons_append] at hMore
      exact absurd ((List.cons.inj hMore).2 ▸ List.mem_append_right more List.mem_cons_self) hRest'

end Text

namespace Path

open Text

-- ---------------------------------------------------------------------------
-- Where names lead
-- ---------------------------------------------------------------------------

/-- A name of a directory or a file. The others lead to where one is, or up. -/
def IsProper (name : String) : Prop := isSelf name = false ∧ name ≠ ".."

/-- Where a name leads from a location. -/
def enter (here : List String) (name : String) : List String :=
  if isSelf name then here else if name = ".." then here.dropLast else here ++ [name]

/-- The locations to which names lead, one after the other. -/
def walk (here : List String) : List String → List (List String)
  | [] => []
  | name :: rest => enter here name :: walk (enter here name) rest

/-- Where names lead in the end. -/
def arrive (here : List String) (names : List String) : List String := names.foldl enter here

theorem enter_of_proper {name : String} (h : IsProper name) (here : List String) :
    enter here name = here ++ [name] := by
  rw [enter, if_neg (by simp [h.1]), if_neg h.2]

theorem arrive_cons (here : List String) (name : String) (rest : List String) :
    arrive here (name :: rest) = arrive (enter here name) rest :=
  rfl

theorem arrive_append (here : List String) (names more : List String) :
    arrive here (names ++ more) = arrive (arrive here names) more :=
  List.foldl_append

theorem arrive_concat {name : String} (h : IsProper name) (here names : List String) :
    arrive here (names ++ [name]) = arrive here names ++ [name] := by
  rw [arrive_append]
  exact enter_of_proper h _

theorem enter_of_self {name : String} (h : isSelf name = true) (here : List String) : enter here name = here :=
  if_pos h

/-- A name that is not one of a file does not lead further down. -/
theorem length_enter_of_not_proper {name : String} (h : ¬ IsProper name) (here : List String) :
    (enter here name).length ≤ here.length := by
  unfold enter
  cases hSelf : isSelf name with
  | true => exact Nat.le_refl _
  | false =>
    have hUp : name = ".." := Decidable.byContradiction fun hOther => h ⟨hSelf, hOther⟩
    rw [if_neg Bool.false_ne_true, if_pos hUp, List.length_dropLast]
    omega

theorem walk_append (here : List String) (names more : List String) :
    walk here (names ++ more) = walk here names ++ walk (arrive here names) more := by
  induction names generalizing here with
  | nil => rfl
  | cons name rest ih => rw [List.cons_append, walk, ih, walk, arrive_cons, List.cons_append]

theorem slash_not_mem_names {path name : String} (h : name ∈ names path) : '/' ∉ name.toList := by
  obtain ⟨piece, hPiece, rfl⟩ := List.mem_map.mp h
  rw [String.toList_ofList]
  intro hSlash
  exact absurd (mem_splitWhere hPiece '/' hSlash) (by decide)

/-- A name is the only one of its own path. -/
theorem names_of_name {name : String} (h : '/' ∉ name.toList) : names name = [name] := by
  unfold names
  rw [splitWhere_of_none, List.map_singleton, String.ofList_toList]
  intro c hc
  exact beq_eq_false_iff_ne.mpr fun hSlash => h (hSlash ▸ hc)

theorem names_slash (base inner : String) : names (base ++ "/" ++ inner) = names base ++ names inner := by
  unfold names
  rw [← List.map_append, ← splitWhere_append (c := '/') rfl]
  simp

theorem isAbsolute_of_name {name : String} (h : '/' ∉ name.toList) : isAbsolute name = false :=
  decide_eq_false fun hHead => h (List.mem_of_mem_head? hHead)

theorem isAbsolute_append {base : String} (h : base ≠ "") (rest : String) :
    isAbsolute (base ++ rest) = isAbsolute base := by
  unfold isAbsolute
  rw [String.toList_append]
  cases hText : base.toList with
  | nil => exact absurd (String.toList_eq_nil_iff.mp hText) h
  | cons c cs => rfl

/-- What is joined to a directory ends with its own name, and begins as the directory does. -/
theorem join_eq (base : String) {name : String} (h : '/' ∉ name.toList) :
    ∃ before, join base name = before ++ name ∧ (base ≠ "" → ∃ rest, before = base ++ rest) := by
  unfold join
  split
  · rename_i hAlone
    rw [isAbsolute_of_name h] at hAlone
    exact ⟨"", String.empty_append.symm, fun hFilled => absurd (hAlone.resolve_left Bool.false_ne_true) hFilled⟩
  · split
    · exact ⟨base, rfl, fun _ => ⟨"", String.append_empty.symm⟩⟩
    · exact ⟨base ++ "/", rfl, fun _ => ⟨"/", rfl⟩⟩

/-- The names of what is joined to a directory: those of the directory, but for a slash at its end, and its own. -/
theorem names_join (base : String) {name : String} (h : '/' ∉ name.toList) :
    ∃ before, names (join base name) = before ++ [name] ∧
      ((base = "" ∧ before = []) ∨ names base = before ∨ names base = before ++ [""]) := by
  unfold join
  by_cases hEmpty : base = ""
  · rw [if_pos (Or.inr hEmpty), names_of_name h]
    exact ⟨[], rfl, Or.inl ⟨hEmpty, rfl⟩⟩
  · rw [if_neg (by simp [isAbsolute_of_name h, hEmpty])]
    split
    · -- the slash is there
      rename_i hLast
      obtain ⟨cs, hBase⟩ := List.getLast?_eq_some_iff.mp hLast
      have hText : base = String.ofList cs ++ "/" := by
        rw [← String.toList_inj, hBase]
        simp
      refine ⟨names (String.ofList cs), ?_, Or.inr (Or.inr ?_)⟩
      · rw [hText, names_slash, names_of_name h]
      · have hSlash := names_slash (String.ofList cs) ""
        rw [String.append_empty] at hSlash
        rw [hText, hSlash]
        rfl
    · exact ⟨names base, by rw [names_slash, names_of_name h], Or.inr (Or.inl rfl)⟩

theorem names_ne_nil (path : String) : names path ≠ [] := fun hNone =>
  splitWhere_ne_nil _ _ (List.map_eq_nil_iff.mp hNone)

/-- A path is the names in it: what is put together from names is read as these names. -/
theorem names_intercalate {names' : List String} (hFilled : names' ≠ []) (h : ∀ name ∈ names', '/' ∉ name.toList) :
    names ("/".intercalate names') = names' := by
  induction names' with
  | nil => exact absurd rfl hFilled
  | cons name rest ih =>
    have hName := names_of_name (h name List.mem_cons_self)
    cases rest with
    | nil => exact hName
    | cons next rest =>
      have hRest := ih (List.cons_ne_nil next rest) fun other hMem => h other (List.mem_cons_of_mem _ hMem)
      rw [String.intercalate_cons_of_ne_nil (List.cons_ne_nil _ _), names_slash, hName, hRest]
      rfl

/-- An absolute path is one with nothing before its first slash. -/
theorem isAbsolute_iff {path : String} : isAbsolute path = true ↔ ∃ next rest, names path = "" :: next :: rest := by
  unfold isAbsolute names
  rw [decide_eq_true_iff]
  cases path.toList with
  | nil => simp [splitWhere]
  | cons c cs =>
    rw [List.head?_cons, Option.some_inj, splitWhere]
    have hPieces := splitWhere_ne_nil (· == '/') cs
    by_cases hSlash : c = '/'
    · subst hSlash
      obtain ⟨piece, pieces, hCut⟩ := List.exists_cons_of_ne_nil hPieces
      simp [hCut]
    · rw [if_neg (by simpa using hSlash)]
      refine iff_of_false hSlash ?_
      rintro ⟨next, rest, hNames⟩
      split at hNames
      · simp at hNames
      · rw [List.map_cons] at hNames
        exact absurd (List.cons.inj hNames).1 (by simp [← String.toList_inj])

theorem dropSelfEnd_concat {name : String} (h : isSelf name = false) (names : List String) :
    dropSelfEnd (names ++ [name]) = names ++ [name] := by
  unfold dropSelfEnd
  rw [List.reverse_concat, List.dropWhile_cons_of_neg (by simp [h]), List.reverse_cons, List.reverse_reverse]

theorem dropSelfEnd_concat_self {name : String} (h : isSelf name = true) (names : List String) :
    dropSelfEnd (names ++ [name]) = dropSelfEnd names := by
  unfold dropSelfEnd
  rw [List.reverse_concat, List.dropWhile_cons_of_pos h]

theorem prefix_dropSelfEnd (names : List String) : dropSelfEnd names <+: names := by
  have hEnd := List.dropWhile_suffix isSelf (l := names.reverse)
  rw [← List.reverse_prefix, List.reverse_reverse] at hEnd
  exact hEnd

/-- The names at the end that are none of their own lead nowhere. -/
theorem arrive_dropSelfEnd (here names : List String) : arrive here (dropSelfEnd names) = arrive here names := by
  induction names using List.reverseRecOn with
  | nil => rfl
  | append_singleton names name ih =>
    cases hSelf : isSelf name with
    | false => rw [dropSelfEnd_concat hSelf]
    | true => rw [dropSelfEnd_concat_self hSelf, ih, arrive_append, arrive_cons, enter_of_self hSelf]; rfl

theorem trimmed_eq_cons {path first : String} {rest : List String} (h : names path = first :: rest) :
    trimmed path = first :: dropSelfEnd rest := by
  rw [trimmed, h]

theorem prefix_trimmed (path : String) : trimmed path <+: names path := by
  obtain ⟨first, rest, hNames⟩ := List.exists_cons_of_ne_nil (names_ne_nil path)
  rw [trimmed_eq_cons hNames, hNames]
  exact List.prefix_cons_inj first |>.mpr (prefix_dropSelfEnd rest)

theorem arrive_trimmed (here : List String) (path : String) : arrive here (trimmed path) = arrive here (names path) := by
  obtain ⟨first, rest, hNames⟩ := List.exists_cons_of_ne_nil (names_ne_nil path)
  rw [trimmed_eq_cons hNames, hNames, arrive_cons, arrive_cons, arrive_dropSelfEnd]

/-- Nothing is dropped from the names of a path that ends with one of its own. -/
theorem trimmed_eq {path name : String} {before : List String} (h : names path = before ++ [name])
    (hName : isSelf name = false) : trimmed path = before ++ [name] := by
  unfold trimmed
  rw [h]
  cases before with
  | nil => rfl
  | cons first rest => exact congrArg (first :: ·) (dropSelfEnd_concat hName rest)

/-- The names of the directory of a file are those before the file's. The root has a slash of its own. -/
theorem names_directory {path first : String} {rest : List String} (h : (trimmed path).dropLast = first :: rest) :
    names (directory path) =
      if first :: dropSelfEnd rest = [""] then ["", ""] else first :: dropSelfEnd rest := by
  have hNames : ∀ name ∈ first :: dropSelfEnd rest, '/' ∉ name.toList := by
    intro name hMem
    have hRest : first :: dropSelfEnd rest <+: first :: rest := (List.prefix_cons_inj first).mpr (prefix_dropSelfEnd rest)
    rw [← h] at hRest
    exact slash_not_mem_names ((prefix_trimmed path).mem ((List.dropLast_prefix _).mem (hRest.mem hMem)))
  unfold directory
  rw [h]
  dsimp only
  split
  · rename_i hRoot
    rw [if_pos hRoot]
    decide
  · rename_i hRoot
    rw [if_neg hRoot, names_intercalate (List.cons_ne_nil _ _) hNames]

/-- The directory of a file lies where the names before the file's lead. -/
theorem arrive_directory {path first : String} {rest : List String} (h : (trimmed path).dropLast = first :: rest)
    (here : List String) : arrive here (names (directory path)) = arrive here (trimmed path).dropLast := by
  rw [names_directory h, h, arrive_cons, ← arrive_dropSelfEnd _ rest]
  split
  · rename_i hRoot
    rw [(List.cons.inj hRoot).1, (List.cons.inj hRoot).2]
    rfl
  · rw [arrive_cons]

/-- The directory of a file begins where the path of the file does. -/
theorem isAbsolute_directory {path first : String} {rest : List String} (h : (trimmed path).dropLast = first :: rest) :
    isAbsolute (directory path) = isAbsolute path := by
  have hPath : isAbsolute path = true ↔ first = "" := by
    obtain ⟨more, hNames⟩ : first :: rest <+: names path := h ▸ (List.dropLast_prefix _).trans (prefix_trimmed path)
    have hMore : rest ++ more ≠ [] := by
      have hLength := (prefix_trimmed path).length_le
      have hShort := congrArg List.length h
      rw [← hNames] at hLength
      rw [List.length_dropLast] at hShort
      rw [← List.length_pos_iff]
      simp only [List.length_append, List.length_cons] at hLength hShort ⊢
      omega
    obtain ⟨next, others, hCons⟩ := List.exists_cons_of_ne_nil hMore
    rw [isAbsolute_iff, ← hNames, List.cons_append, hCons]
    simp
  have hDirectory : isAbsolute (directory path) = true ↔ first = "" := by
    rw [isAbsolute_iff, names_directory h]
    split
    · rename_i hRoot
      simp [(List.cons.inj hRoot).1]
    · rename_i hOther
      cases hRest : dropSelfEnd rest with
      | nil => simpa [hRest] using hOther
      | cons next others => simp
  rw [Bool.eq_iff_iff, hPath, hDirectory]

-- ---------------------------------------------------------------------------
-- The file that prepares another one
-- ---------------------------------------------------------------------------

/-- The name under which a file is prepared. -/
def stagingName (writer : Nat) (name : String) : String := "." ++ name ++ "." ++ toString writer ++ ".tmp"

theorem toList_stagingName (writer : Nat) (name : String) :
    (stagingName writer name).toList =
      '.' :: (name.toList ++ '.' :: (Nat.toDigits 10 writer ++ ['.', 't', 'm', 'p'])) := by
  have hDigits : (toString writer).toList = Nat.toDigits 10 writer := by
    rw [Nat.toString_eq_ofList_toDigits, String.toList_ofList]
  unfold stagingName
  rw [String.toList_append, String.toList_append, String.toList_append, String.toList_append, hDigits]
  simp

theorem getLast?_stagingName (writer : Nat) (name : String) : (stagingName writer name).toList.getLast? = some 'p' := by
  unfold stagingName
  rw [String.toList_append, List.getLast?_append]
  rfl

theorem slash_not_mem_stagingName (writer : Nat) {name : String} (h : '/' ∉ name.toList) :
    '/' ∉ (stagingName writer name).toList := by
  rw [toList_stagingName]
  have hDigits : '/' ∉ Nat.toDigits 10 writer := fun hSlash =>
    absurd (Nat.isDigit_of_mem_toDigits (by decide) (by decide) hSlash) (by decide)
  simp [h, hDigits]

/-- The name of the file that prepares another one tells by whom, and which file. -/
theorem stagingName_injective {writer writer' : Nat} {name name' : String}
    (h : stagingName writer name = stagingName writer' name') : writer = writer' ∧ name = name' := by
  have hText := congrArg String.toList h
  have hDigits : ∀ n : Nat, '.' ∉ Nat.toDigits 10 n := fun n hDot =>
    absurd (Nat.isDigit_of_mem_toDigits (by decide) (by decide) hDot) (by decide)
  have hEnd : ∀ n : Nat, '.' :: (Nat.toDigits 10 n ++ ['.', 't', 'm', 'p']) =
      ('.' :: Nat.toDigits 10 n) ++ ['.', 't', 'm', 'p'] := fun _ => rfl
  rw [toList_stagingName, toList_stagingName, List.cons_inj_right, hEnd, hEnd, ← List.append_assoc,
    ← List.append_assoc, List.append_left_inj] at hText
  obtain ⟨hName, hWriter⟩ := append_cons_inj (hDigits writer) (hDigits writer') hText
  refine ⟨?_, String.toList_inj.mp hName⟩
  have hRead := congrArg (fun digits => Nat.ofDigitChars 10 digits 0) hWriter
  rwa [Nat.ofDigitChars_toDigits (by decide) (by decide), Nat.ofDigitChars_toDigits (by decide) (by decide)] at hRead

theorem isProper_of_length {name : String} (h : 2 < name.toList.length) : IsProper name := by
  have hOther : ∀ short : String, short.toList.length ≤ 2 → name ≠ short := by
    rintro short hShort rfl
    omega
  refine ⟨?_, hOther ".." (by decide)⟩
  unfold isSelf
  rw [decide_eq_false (hOther "" (by decide)), decide_eq_false (hOther "." (by decide))]
  rfl

theorem isProper_stagingName (writer : Nat) (name : String) : IsProper (stagingName writer name) := by
  refine isProper_of_length ?_
  rw [toList_stagingName]
  simp
  omega

theorem fileName?_eq {path name : String} {before : List String} (h : names path = before ++ [name])
    (hName : IsProper name) : fileName? path = some name := by
  rw [fileName?, trimmed_eq h hName.1, List.getLast?_concat, Option.filter_some, if_pos]
  simp [hName.1, hName.2]

/-- The last name of the path of the file that prepares another one. -/
theorem names_staging (writer : Nat) {path name : String} {before : List String} (h : names path = before ++ [name])
    (hName : IsProper name) : ∃ before', names (staging writer path) = before' ++ [stagingName writer name] := by
  have hSlash : '/' ∉ name.toList := slash_not_mem_names (h ▸ List.mem_append_right before List.mem_cons_self)
  have hStaging : staging writer path = join (directory path) (stagingName writer name) := by
    unfold staging
    rw [fileName?_eq h hName]
    rfl
  obtain ⟨before', hNames, -⟩ := names_join (directory path) (slash_not_mem_stagingName writer hSlash)
  exact ⟨before', by rw [hStaging, hNames]⟩

end Path

end PlanReplay

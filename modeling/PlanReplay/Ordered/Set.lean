/-!
# Ordered sets

A finite set kept as a strictly ascending list, so that a set is listed in its order and two sets with
the same members are the same value.

Each operation has one statement through membership: `OrderedSet.mem_insert`, `OrderedSet.mem_erase`,
`OrderedSet.mem_filter`, and `OrderedSet.ext` says that members decide equality.
-/

namespace PlanReplay

open Std

variable {α : Type}

/-- Puts `a` before the first larger member; a member that compares equal is replaced. -/
def insertAscending [Ord α] (a : α) : List α → List α
  | [] => [a]
  | b :: rest =>
    match compare a b with
    | .lt => a :: b :: rest
    | .eq => a :: rest
    | .gt => b :: insertAscending a rest

/-- Two lists that ascend along one strict order and have the same members are equal. -/
theorem eq_of_ascending {before : α → α → Prop} (irrefl : ∀ a, ¬ before a a)
    (trans : ∀ {a b c}, before a b → before b c → before a c) {xs ys : List α}
    (hx : xs.Pairwise before) (hy : ys.Pairwise before) (same : ∀ a, a ∈ xs ↔ a ∈ ys) : xs = ys := by
  induction xs generalizing ys with
  | nil =>
    cases ys with
    | nil => rfl
    | cons y ys => exact absurd ((same y).2 List.mem_cons_self) List.not_mem_nil
  | cons x xs ih =>
    cases ys with
    | nil => exact absurd ((same x).1 List.mem_cons_self) List.not_mem_nil
    | cons y ys =>
      obtain ⟨hx1, hx2⟩ := List.pairwise_cons.1 hx
      obtain ⟨hy1, hy2⟩ := List.pairwise_cons.1 hy
      have head : x = y := by
        rcases List.mem_cons.1 ((same x).1 List.mem_cons_self) with h | h
        · exact h
        · rcases List.mem_cons.1 ((same y).2 List.mem_cons_self) with h' | h'
          · exact h'.symm
          · exact absurd (trans (hy1 x h) (hx1 y h')) (irrefl y)
      subst head
      congr 1
      refine ih hx2 hy2 fun a => ⟨fun h => ?_, fun h => ?_⟩
      · rcases List.mem_cons.1 ((same a).1 (List.mem_cons_of_mem _ h)) with rfl | h'
        · exact absurd (hx1 a h) (irrefl a)
        · exact h'
      · rcases List.mem_cons.1 ((same a).2 (List.mem_cons_of_mem _ h)) with rfl | h'
        · exact absurd (hy1 a h) (irrefl a)
        · exact h'

/-- Nothing comes before itself. -/
theorem compare_ne_lt [Ord α] [ReflOrd α] (a : α) : ¬ compare a a = .lt := by
  rw [ReflOrd.compare_self]
  decide

/-- A finite set, listed in ascending order without repetition. -/
structure OrderedSet (α : Type) [Ord α] where
  toList : List α
  ascending : toList.Pairwise fun a b => compare a b = .lt

namespace OrderedSet

variable [Ord α]

instance : Membership α (OrderedSet α) := ⟨fun s a => a ∈ s.toList⟩

theorem mem_toList {s : OrderedSet α} {a : α} : a ∈ s.toList ↔ a ∈ s := Iff.rfl

/-- The set without members. -/
def empty : OrderedSet α := ⟨[], .nil⟩

theorem not_mem_empty (a : α) : a ∉ (empty : OrderedSet α) := List.not_mem_nil

/-- The members that satisfy `keep`. -/
def filter (keep : α → Bool) (s : OrderedSet α) : OrderedSet α :=
  ⟨s.toList.filter keep, s.ascending.filter keep⟩

@[simp] theorem mem_filter {keep : α → Bool} {s : OrderedSet α} {a : α} :
    a ∈ s.filter keep ↔ a ∈ s ∧ keep a = true :=
  List.mem_filter

variable [DecidableEq α]

instance (a : α) (s : OrderedSet α) : Decidable (a ∈ s) := inferInstanceAs (Decidable (a ∈ s.toList))

instance : DecidableEq (OrderedSet α) := fun s t =>
  if same : s.toList = t.toList then
    .isTrue (by cases s; cases t; simp_all)
  else
    .isFalse fun equal => same (equal ▸ rfl)

/-- The set without `a`. -/
def erase (a : α) (s : OrderedSet α) : OrderedSet α := s.filter (· ≠ a)

@[simp] theorem mem_erase {s : OrderedSet α} {a b : α} : b ∈ s.erase a ↔ b ∈ s ∧ b ≠ a := by
  simp [erase]

end OrderedSet

section Insertion

variable [Ord α] [LawfulEqOrd α]

theorem mem_insertAscending {a b : α} {xs : List α} :
    b ∈ insertAscending a xs ↔ b = a ∨ b ∈ xs := by
  induction xs with
  | nil => simp [insertAscending]
  | cons c rest ih =>
    unfold insertAscending
    split
    · simp
    · rename_i same
      rw [LawfulEqOrd.eq_of_compare same]
      simp
    · simp only [List.mem_cons, ih]
      grind

variable [TransOrd α]

theorem insertAscending_ascending (a : α) {xs : List α}
    (sorted : xs.Pairwise fun x y => compare x y = .lt) :
    (insertAscending a xs).Pairwise fun x y => compare x y = .lt := by
  induction xs with
  | nil => simp [insertAscending]
  | cons c rest ih =>
    obtain ⟨below, tail⟩ := List.pairwise_cons.1 sorted
    unfold insertAscending
    split
    · rename_i less
      refine List.pairwise_cons.2 ⟨fun x mem => ?_, sorted⟩
      rcases List.mem_cons.1 mem with rfl | mem
      · exact less
      · exact TransCmp.lt_trans less (below x mem)
    · rename_i same
      rw [LawfulEqOrd.eq_of_compare same]
      exact sorted
    · rename_i greater
      refine List.pairwise_cons.2 ⟨fun x mem => ?_, ih tail⟩
      rcases mem_insertAscending.1 mem with rfl | mem
      · exact OrientedCmp.gt_iff_lt.1 greater
      · exact below x mem

namespace OrderedSet

/-- The set with `a` added. -/
def insert (a : α) (s : OrderedSet α) : OrderedSet α :=
  ⟨insertAscending a s.toList, insertAscending_ascending a s.ascending⟩

@[simp] theorem mem_insert {s : OrderedSet α} {a b : α} : b ∈ s.insert a ↔ b = a ∨ b ∈ s :=
  mem_insertAscending

/-- The set of the members of a list. -/
def ofList (xs : List α) : OrderedSet α := xs.foldl (fun s a => s.insert a) empty

omit [LawfulEqOrd α] in
/-- Sets with the same members are equal: the ascending order leaves one list for each set. -/
theorem ext {s t : OrderedSet α} (same : ∀ a, a ∈ s ↔ a ∈ t) : s = t := by
  obtain ⟨xs, hx⟩ := s
  obtain ⟨ys, hy⟩ := t
  have equal : xs = ys := eq_of_ascending compare_ne_lt TransCmp.lt_trans hx hy same
  subst equal
  rfl

end OrderedSet

end Insertion

end PlanReplay

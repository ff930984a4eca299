/-!
# Sorting by a number

`sortByKey` puts the elements of a list in the order of a number that each of them has; elements with the same
number keep their order. It is an insertion sort, and quick where a list is nearly sorted already.

Main statements:

* `sortByKey_perm` — sorting drops and repeats nothing;
* `sortByKey_stable` — a relation that holds along the list holds along the elements with one number;
* `sortByKey_ascending` — the numbers ascend along the sorted list;
* `sortByKey_eq_self` — what is in order is left as it is.
-/

namespace PlanReplay

variable {α : Type}

/-- Puts `a` before the first element with a number that is not smaller. -/
def insertByKey (key : α → Int) (a : α) : List α → List α
  | [] => [a]
  | b :: rest => if key a ≤ key b then a :: b :: rest else b :: insertByKey key a rest

/-- A list in the order of the numbers of its elements. -/
def sortByKey (key : α → Int) : List α → List α
  | [] => []
  | a :: rest => insertByKey key a (sortByKey key rest)

theorem insertByKey_perm (key : α → Int) (a : α) (l : List α) : (insertByKey key a l).Perm (a :: l) := by
  induction l with
  | nil => exact .refl _
  | cons b rest ih =>
    rw [insertByKey]
    split
    · exact .refl _
    · exact (ih.cons b).trans (.swap a b rest)

/-- Sorting drops and repeats nothing. -/
theorem sortByKey_perm (key : α → Int) (l : List α) : (sortByKey key l).Perm l := by
  induction l with
  | nil => exact .refl _
  | cons a rest ih => exact (insertByKey_perm key a _).trans (ih.cons a)

theorem insertByKey_stable {key : α → Int} {related : α → α → Prop} {a : α} {l : List α} (first : ∀ b ∈ l, related a b)
    (sorted : l.Pairwise fun x y => key x < key y ∨ key x = key y ∧ related x y) :
    (insertByKey key a l).Pairwise fun x y => key x < key y ∨ key x = key y ∧ related x y := by
  induction l with
  | nil => exact List.pairwise_singleton _ _
  | cons b rest ih =>
    obtain ⟨later, sortedRest⟩ := List.pairwise_cons.1 sorted
    rw [insertByKey]
    split
    · rename_i le
      refine List.pairwise_cons.2 ⟨fun c hc => ?_, sorted⟩
      have le' : key a ≤ key c := by
        rcases List.mem_cons.1 hc with rfl | hc
        · exact le
        · rcases later c hc with lt | ⟨eq, -⟩ <;> omega
      rcases Int.lt_or_eq_of_le le' with lt | eq
      · exact .inl lt
      · exact .inr ⟨eq, first c hc⟩
    · rename_i gt
      refine List.pairwise_cons.2 ⟨fun c hc => ?_, ih (fun c hc => first c (List.mem_cons_of_mem _ hc)) sortedRest⟩
      rcases List.mem_cons.1 ((insertByKey_perm key a rest).mem_iff.1 hc) with rfl | hc
      · exact .inl (Int.not_le.1 gt)
      · exact later c hc

/-- What holds along the list still holds along the elements with one number. -/
theorem sortByKey_stable (key : α → Int) {related : α → α → Prop} {l : List α} (along : l.Pairwise related) :
    (sortByKey key l).Pairwise fun x y => key x < key y ∨ key x = key y ∧ related x y := by
  induction l with
  | nil => exact .nil
  | cons a rest ih =>
    obtain ⟨first, later⟩ := List.pairwise_cons.1 along
    exact insertByKey_stable (fun b hb => first b ((sortByKey_perm key rest).mem_iff.1 hb)) (ih later)

/-- The numbers ascend along the sorted list. -/
theorem sortByKey_ascending (key : α → Int) (l : List α) :
    (sortByKey key l).Pairwise fun x y => key x ≤ key y := by
  have along : l.Pairwise fun _ _ => True := List.pairwise_of_forall fun _ _ => trivial
  refine (sortByKey_stable key along).imp ?_
  rintro x y (lt | ⟨eq, -⟩)
  · exact Int.le_of_lt lt
  · exact Int.le_of_eq eq

/-- What is in order is left as it is. -/
theorem sortByKey_eq_self {key : α → Int} {l : List α} (ascending : l.Pairwise fun x y => key x ≤ key y) :
    sortByKey key l = l := by
  induction l with
  | nil => rfl
  | cons a rest ih =>
    obtain ⟨first, later⟩ := List.pairwise_cons.1 ascending
    rw [sortByKey, ih later]
    cases rest with
    | nil => rfl
    | cons b rest => exact if_pos (first b List.mem_cons_self)

example : sortByKey id [2, 3, -1, 2] = [-1, 2, 2, 3] := by decide

end PlanReplay

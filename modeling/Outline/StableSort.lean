/-!
# Stable sorting

Insertion sort by a relation that decides which of two items may come first.  Items that may come in
either order keep the order in which they are listed.
-/

namespace Outline

variable {α : Type}

/-- Puts `x` before the first item that it may precede. -/
def insertSorted (le : α → α → Bool) (x : α) : List α → List α
  | [] => [x]
  | y :: ys => if le x y then x :: y :: ys else y :: insertSorted le x ys

/-- The items in order. -/
def stableSort (le : α → α → Bool) : List α → List α
  | [] => []
  | x :: xs => insertSorted le x (stableSort le xs)

theorem insertSorted_perm (le : α → α → Bool) (x : α) (ys : List α) :
    (insertSorted le x ys).Perm (x :: ys) := by
  induction ys with
  | nil => exact .refl _
  | cons y ys ih =>
    unfold insertSorted
    split
    · exact .refl _
    · exact (ih.cons y).trans (.swap ..)

/-- Sorting loses nothing and adds nothing. -/
theorem stableSort_perm (le : α → α → Bool) (items : List α) :
    (stableSort le items).Perm items := by
  induction items with
  | nil => exact .refl _
  | cons x xs ih => exact (insertSorted_perm le x _).trans (ih.cons x)

@[simp] theorem length_stableSort (le : α → α → Bool) (items : List α) :
    (stableSort le items).length = items.length :=
  (stableSort_perm le items).length_eq

@[simp] theorem mem_stableSort {le : α → α → Bool} {items : List α} {x : α} :
    x ∈ stableSort le items ↔ x ∈ items :=
  (stableSort_perm le items).mem_iff

theorem pairwise_insertSorted {le : α → α → Bool}
    (trans : ∀ x y z, le x y = true → le y z = true → le x z = true)
    (total : ∀ x y, le x y = false → le y x = true) {x : α} {ys : List α}
    (sorted : ys.Pairwise (le · · = true)) :
    (insertSorted le x ys).Pairwise (le · · = true) := by
  induction ys with
  | nil => simp [insertSorted]
  | cons y ys ih =>
    rw [List.pairwise_cons] at sorted
    unfold insertSorted
    split
    · refine List.pairwise_cons.2 ⟨fun z hz => ?_, List.pairwise_cons.2 sorted⟩
      rcases List.mem_cons.1 hz with rfl | hz
      · assumption
      · exact trans _ _ _ ‹_› (sorted.1 z hz)
    · refine List.pairwise_cons.2 ⟨fun z hz => ?_, ih sorted.2⟩
      rcases List.mem_cons.1 ((insertSorted_perm le x ys).mem_iff.1 hz) with rfl | hz
      · exact total _ _ (Bool.eq_false_iff.2 ‹_›)
      · exact sorted.1 z hz

/-- Each item of a sorted list may precede all later ones. -/
theorem pairwise_stableSort {le : α → α → Bool}
    (trans : ∀ x y z, le x y = true → le y z = true → le x z = true)
    (total : ∀ x y, le x y = false → le y x = true) (items : List α) :
    (stableSort le items).Pairwise (le · · = true) := by
  induction items with
  | nil => exact .nil
  | cons x xs ih => exact pairwise_insertSorted trans total ih

theorem insertSorted_of_precedes {le : α → α → Bool} {x : α} {ys : List α}
    (precedes : ∀ y ∈ ys, le x y = true) : insertSorted le x ys = x :: ys := by
  cases ys with
  | nil => rfl
  | cons y ys => simp [insertSorted, precedes y]

/-- Sorting a sorted list changes nothing. -/
theorem stableSort_eq_self {le : α → α → Bool} {items : List α}
    (sorted : items.Pairwise (le · · = true)) : stableSort le items = items := by
  induction items with
  | nil => rfl
  | cons x xs ih =>
    rw [List.pairwise_cons] at sorted
    rw [stableSort, ih sorted.2, insertSorted_of_precedes sorted.1]

/-- Nothing else changes place where an item is put in. -/
theorem sublist_insertSorted (le : α → α → Bool) (x : α) (ys : List α) :
    ys.Sublist (insertSorted le x ys) := by
  induction ys with
  | nil => exact List.nil_sublist _
  | cons y ys ih =>
    unfold insertSorted
    split
    · exact List.sublist_cons_self ..
    · exact ih.cons_cons y

/-- An item goes before all those that it may precede. -/
theorem cons_sublist_insertSorted {le : α → α → Bool} {x : α} {part ys : List α}
    (precedes : ∀ y ∈ part, le x y = true) (inside : part.Sublist ys) :
    (x :: part).Sublist (insertSorted le x ys) := by
  induction inside with
  | slnil => exact .refl _
  | @cons part ys y inside ih =>
    unfold insertSorted
    split
    · exact (inside.cons y).cons_cons x
    · exact (ih precedes).cons y
  | @cons_cons part ys y inside =>
    have first : le x y = true := precedes y (.head _)
    simp only [insertSorted, first, if_pos]
    exact (inside.cons_cons y).cons_cons x

/-- Items that are listed in order keep their sequence. -/
theorem sublist_stableSort {le : α → α → Bool} {part items : List α}
    (ordered : part.Pairwise (le · · = true)) (inside : part.Sublist items) :
    part.Sublist (stableSort le items) := by
  induction inside with
  | slnil => exact .refl _
  | @cons part items x _ ih =>
    exact (ih ordered).trans (sublist_insertSorted le x _)
  | @cons_cons part items x _ ih =>
    rw [List.pairwise_cons] at ordered
    exact cons_sublist_insertSorted ordered.1 (ih ordered.2)

theorem filter_insertSorted {le : α → α → Bool}
    (trans : ∀ x y z, le x y = true → le y z = true → le x z = true) (keep : α → Bool) (x : α)
    {ys : List α} (sorted : ys.Pairwise (le · · = true)) :
    (insertSorted le x ys).filter keep =
      if keep x then insertSorted le x (ys.filter keep) else ys.filter keep := by
  induction ys with
  | nil => by_cases kept : keep x = true <;> simp [insertSorted, kept]
  | cons y ys ih =>
    rw [List.pairwise_cons] at sorted
    by_cases first : le x y = true
    · have precedes : ∀ z ∈ (y :: ys).filter keep, le x z = true := by
        intro z inside
        rcases List.mem_cons.1 (List.mem_filter.1 inside).1 with rfl | later
        · exact first
        · exact trans x y z first (sorted.1 z later)
      rw [insertSorted, if_pos first, List.filter_cons, insertSorted_of_precedes precedes]
    · rw [insertSorted, if_neg first, List.filter_cons, ih sorted.2, List.filter_cons]
      by_cases kept : keep x = true <;> by_cases here : keep y = true <;>
        simp [kept, here, insertSorted, first]

/-- Sorting what is left of a list leaves what is left of the sorted list. -/
theorem filter_stableSort {le : α → α → Bool}
    (trans : ∀ x y z, le x y = true → le y z = true → le x z = true)
    (total : ∀ x y, le x y = false → le y x = true) (keep : α → Bool) (items : List α) :
    (stableSort le items).filter keep = stableSort le (items.filter keep) := by
  induction items with
  | nil => rfl
  | cons x xs ih =>
    rw [stableSort, filter_insertSorted trans keep x (pairwise_stableSort trans total xs), ih,
      List.filter_cons]
    split <;> rfl

end Outline

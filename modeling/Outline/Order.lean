import Outline.Id
import Outline.StableSort

/-!
# Sibling order

Siblings carry order numbers.  At rest the numbers of `n` siblings are `1, …, n`, and every
operation here that changes a list of siblings leaves it so.  Numbers may arrive with gaps or
repeats: siblings are then taken by number, and those with equal numbers in the order listed.
-/

namespace Outline

/-- Things kept in a numbered sequence.  Changing the number changes nothing else. -/
class Ordered (α : Type) where
  id : α → Id
  order : α → Nat
  withOrder : α → Nat → α
  id_withOrder : ∀ x n, id (withOrder x n) = id x := by intros; rfl
  order_withOrder : ∀ x n, order (withOrder x n) = n := by intros; rfl
  withOrder_withOrder : ∀ x m n, withOrder (withOrder x m) n = withOrder x n := by intros; rfl
  withOrder_order : ∀ x, withOrder x (order x) = x := by intro x; cases x; rfl

attribute [simp] Ordered.id_withOrder Ordered.order_withOrder Ordered.withOrder_withOrder
  Ordered.withOrder_order

namespace Ordered

variable {α : Type} [Ordered α]

/-- The items by number, those with equal numbers in the order listed. -/
def sorted (items : List α) : List α :=
  stableSort (fun x y => order x ≤ order y) items

/-- Numbers the items `n, n + 1, …` as they are listed. -/
def numberFrom (n : Nat) : List α → List α
  | [] => []
  | x :: xs => withOrder x n :: numberFrom (n + 1) xs

/-- Numbers the items from one as they are listed. -/
def renumber (items : List α) : List α :=
  numberFrom 1 items

/-- Numbers the items from one in the sequence that their present numbers give. -/
def densify (items : List α) : List α :=
  renumber (sorted items)

/-- Whether the numbers of `n` items are `1, …, n`, in any listing. -/
def isDense (items : List α) : Bool :=
  (sorted items).map order = List.range' 1 items.length

/-- Puts `new` at `index`, or last if the index is beyond the end, and numbers the items from
one. -/
def insertAt (items : List α) (new : α) (index : Nat) : List α :=
  let ordered := sorted items
  renumber (ordered.take index ++ new :: ordered.drop index)

/-- Puts `new` last and numbers the items from one. -/
def append (items : List α) (new : α) : List α :=
  insertAt items new items.length

/-- The items without those called `removed`, later ones moved up to close the gap; `none` if
there is no such item. -/
def withdraw? (items : List α) (removed : Id) : Option (List α) :=
  (items.find? (id · = removed)).map fun gone =>
    let rest := sorted ((items.filter (id · ≠ removed)).map fun item =>
      if order gone < order item then withOrder item (order item - 1) else item)
    if isDense rest then rest else renumber rest

/-- Sorting loses nothing and adds nothing. -/
theorem sorted_perm (items : List α) : (sorted items).Perm items :=
  stableSort_perm _ items

@[simp] theorem length_sorted (items : List α) : (sorted items).length = items.length :=
  (sorted_perm items).length_eq

@[simp] theorem mem_sorted {items : List α} {x : α} : x ∈ sorted items ↔ x ∈ items :=
  (sorted_perm items).mem_iff

/-- Sorting lists the numbers in ascending order. -/
theorem pairwise_sorted (items : List α) : (sorted items).Pairwise (order · ≤ order ·) :=
  (pairwise_stableSort (by simp; omega) (by simp; omega) items).imp (by simp)

@[simp] theorem length_numberFrom (n : Nat) (items : List α) :
    (numberFrom n items).length = items.length := by
  induction items generalizing n with
  | nil => rfl
  | cons x xs ih => simp [numberFrom, ih]

@[simp] theorem map_order_numberFrom (n : Nat) (items : List α) :
    (numberFrom n items).map order = List.range' n items.length := by
  induction items generalizing n with
  | nil => rfl
  | cons x xs ih => simp [numberFrom, ih, List.range'_succ]

@[simp] theorem map_id_numberFrom (n : Nat) (items : List α) :
    (numberFrom n items).map id = items.map id := by
  induction items generalizing n with
  | nil => rfl
  | cons x xs ih => simp [numberFrom, ih]

@[simp] theorem length_renumber (items : List α) : (renumber items).length = items.length :=
  length_numberFrom 1 items

@[simp] theorem map_order_renumber (items : List α) :
    (renumber items).map order = List.range' 1 items.length :=
  map_order_numberFrom 1 items

@[simp] theorem map_id_renumber (items : List α) : (renumber items).map id = items.map id :=
  map_id_numberFrom 1 items

/-- A list in ascending order of numbers is sorted already. -/
theorem sorted_eq_self {items : List α} (ascending : items.Pairwise (order · ≤ order ·)) :
    sorted items = items :=
  stableSort_eq_self (ascending.imp (by simp))

theorem isDense_iff {items : List α} :
    isDense items = true ↔ (sorted items).map order = List.range' 1 items.length := by
  simp [isDense]

/-- The numbers of a renumbered list ascend. -/
theorem pairwise_renumber (items : List α) : (renumber items).Pairwise (order · ≤ order ·) := by
  have ascending : ((renumber items).map order).Pairwise (· ≤ ·) := by
    rw [map_order_renumber]
    exact List.pairwise_le_range'
  exact List.pairwise_map.1 ascending

@[simp] theorem isDense_renumber (items : List α) : isDense (renumber items) = true := by
  rw [isDense_iff, sorted_eq_self (pairwise_renumber items), map_order_renumber, length_renumber]

end Ordered

end Outline

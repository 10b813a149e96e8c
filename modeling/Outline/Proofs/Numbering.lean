import Mathlib.Data.List.Nodup
import Mathlib.Data.List.Perm.Basic
import Mathlib.Data.Nat.Basic
import Mathlib.Order.Lattice
import Outline.Siblings

/-!
# Numbered siblings

What the operations on numbered lists come down to when identifiers are distinct.  Every one of them
lists the items in the sequence that their numbers give, takes out or puts in an item, and numbers
the outcome from one (`Outline.takeOut?_eq_some`, `Outline.Ordered.insertAt_eq`,
`Outline.reorder_eq_ok`).  A list is dense exactly if its numbers are those from one to its length
in some listing (`Outline.Ordered.isDense_iff_perm`).
-/

namespace Outline

variable {α β : Type}

/-- Sorting commutes with a map that keeps the order of each item and those listed after it. -/
theorem stableSort_map_of_pairwise {le : α → α → Bool} {le' : β → β → Bool} {f : α → β}
    {items : List α} (keeps : items.Pairwise fun x y => le' (f x) (f y) = le x y) :
    stableSort le' (items.map f) = (stableSort le items).map f := by
  have insert : ∀ (x : α) (ys : List α), (∀ y ∈ ys, le' (f x) (f y) = le x y) →
      insertSorted le' (f x) (ys.map f) = (insertSorted le x ys).map f := by
    intro x ys
    induction ys with
    | nil => intro _; rfl
    | cons y ys ih =>
        intro agree
        have rest := ih fun z member => agree z (.tail _ member)
        simp only [List.map_cons, insertSorted, agree y (.head _), rest]
        split <;> rfl
  induction items with
  | nil => rfl
  | cons x xs ih =>
      rw [List.pairwise_cons] at keeps
      rw [List.map_cons, stableSort, stableSort, ih keeps.2]
      exact insert x _ fun y member => keeps.1 y (mem_stableSort.1 member)

/-- Sorting commutes with a map that keeps the order of the items. -/
theorem stableSort_map {le : α → α → Bool} {le' : β → β → Bool} {f : α → β} {items : List α}
    (keeps : ∀ x ∈ items, ∀ y ∈ items, le' (f x) (f y) = le x y) :
    stableSort le' (items.map f) = (stableSort le items).map f :=
  stableSort_map_of_pairwise (List.pairwise_of_forall_mem_list keeps)

/-- Items in ascending order of their keys are what sorting any listing of them by key gives. -/
theorem stableSort_eq_of_perm {κ : Type} [LinearOrder κ] {key : α → κ} {items listing : List α}
    (same : items.Perm listing) (ascending : listing.Pairwise (key · < key ·)) :
    stableSort (fun x y => key x ≤ key y) items = listing := by
  have sorted : (stableSort (fun x y => key x ≤ key y) items).Pairwise (key · ≤ key ·) := by
    refine (pairwise_stableSort ?_ ?_ items).imp of_decide_eq_true
    · exact fun x y z first second =>
        decide_eq_true (le_trans (of_decide_eq_true first) (of_decide_eq_true second))
    · exact fun x y above => decide_eq_true (le_of_not_ge (of_decide_eq_false above))
  refine List.Perm.eq_of_pairwise ?_ sorted (ascending.imp le_of_lt)
    ((stableSort_perm _ items).trans same)
  intro x y inSorted inListing below above
  have distinct : (listing.map key).Nodup := List.pairwise_map.2 (ascending.imp ne_of_lt)
  have x_mem : x ∈ listing := same.mem_iff.1 (mem_stableSort.1 inSorted)
  exact List.inj_on_of_nodup_map distinct x_mem inListing (le_antisymm below above)

theorem filter_middle {front back : List Id} {x : Id} :
    (front ++ x :: back).filter (· ≠ x) = (front ++ back).filter (· ≠ x) := by
  rw [List.filter_append, List.filter_cons_of_neg (by simp), ← List.filter_append]

namespace Ordered

variable [Ordered α] [Ordered β] {items : List α}

/-- Items in ascending order of numbers are what sorting any listing of them gives. -/
theorem sorted_eq_of_perm {listing : List α} (same : items.Perm listing)
    (ascending : listing.Pairwise (order · < order ·)) : sorted items = listing :=
  stableSort_eq_of_perm same ascending

theorem sorted_map {f : α → β}
    (keeps : ∀ x ∈ items, ∀ y ∈ items, order (f x) ≤ order (f y) ↔ order x ≤ order y) :
    sorted (items.map f) = (sorted items).map f :=
  stableSort_map fun x inX y inY => decide_eq_decide.2 (keeps x inX y inY)

/-- A list is dense exactly if it carries the numbers from one to its length, each once. -/
theorem isDense_iff_perm :
    isDense items = true ↔ (items.map order).Perm (List.range' 1 items.length) := by
  rw [isDense_iff]
  constructor
  · intro dense
    rw [← dense]
    exact ((sorted_perm items).map order).symm
  · intro dense
    have ascending : ((sorted items).map order).Pairwise (· ≤ ·) :=
      List.pairwise_map.2 (pairwise_sorted items)
    exact List.Perm.eq_of_pairwise (fun _ _ _ _ => Nat.le_antisymm) ascending
      List.pairwise_le_range' (((sorted_perm items).map order).trans dense)

/-- No two items of a dense list have one number. -/
theorem nodup_order_of_isDense (dense : isDense items = true) : (items.map order).Nodup :=
  (isDense_iff_perm.1 dense).nodup_iff.2 List.nodup_range'

/-- Numbering sees nothing of the numbers there were. -/
theorem numberFrom_map {f : α → α} (same : ∀ x ∈ items, ∀ n, withOrder (f x) n = withOrder x n)
    (n : Nat) : numberFrom n (items.map f) = numberFrom n items := by
  induction items generalizing n with
  | nil => rfl
  | cons x xs ih =>
      simp only [List.map_cons, numberFrom, same x (.head _),
        ih fun y member => same y (.tail _ member)]

/-- A map that only looks at other fields commutes with numbering. -/
theorem map_numberFrom {f : α → β} (carries : ∀ x ∈ items, ∀ n,
    f (withOrder x n) = withOrder (f x) n) (n : Nat) :
    (numberFrom n items).map f = numberFrom n (items.map f) := by
  induction items generalizing n with
  | nil => rfl
  | cons x xs ih =>
      simp only [List.map_cons, numberFrom, carries x (.head _),
        ih fun y member => carries y (.tail _ member)]

theorem map_renumber {f : α → β} (carries : ∀ x ∈ items, ∀ n,
    f (withOrder x n) = withOrder (f x) n) : (renumber items).map f = renumber (items.map f) :=
  map_numberFrom carries 1

/-- What ignores the number is the same after numbering. -/
theorem map_numberFrom_eq {γ : Type} {f : α → γ} (ignores : ∀ x n, f (withOrder x n) = f x)
    (n : Nat) : (numberFrom n items).map f = items.map f := by
  induction items generalizing n with
  | nil => rfl
  | cons x xs ih => simp only [List.map_cons, numberFrom, ignores, ih]

theorem map_renumber_eq {γ : Type} {f : α → γ} (ignores : ∀ x n, f (withOrder x n) = f x) :
    (renumber items).map f = items.map f :=
  map_numberFrom_eq ignores 1

/-- Items that differ in nothing but their numbers are the same once they are numbered. -/
theorem renumber_congr {xs ys : List α} (same : xs.map (withOrder · 0) = ys.map (withOrder · 0)) :
    renumber xs = renumber ys := by
  have bare : ∀ zs : List α, renumber (zs.map (withOrder · 0)) = renumber zs := fun zs =>
    numberFrom_map (fun x _ n => withOrder_withOrder x 0 n) 1
  rw [← bare xs, ← bare ys, same]

/-- Which items stay does not depend on their numbers. -/
theorem map_withOrder_filter (removed : Id) (items : List α) :
    (items.filter (id · ≠ removed)).map (withOrder · 0) =
      (items.map (withOrder · 0)).filter (id · ≠ removed) := by
  rw [List.filter_map]
  exact congrArg _ (List.filter_congr fun x _ => by simp)

/-- Lists hold the same items, in whatever sequence and with whatever numbers. -/
def SameItems (xs ys : List α) : Prop :=
  (xs.map (withOrder · 0)).Perm (ys.map (withOrder · 0))

namespace SameItems

variable {xs ys zs : List α}

theorem trans (first : SameItems xs ys) (second : SameItems ys zs) : SameItems xs zs :=
  List.Perm.trans first second

theorem of_perm (perm : xs.Perm ys) : SameItems xs ys :=
  perm.map _

theorem renumber (items : List α) : SameItems (renumber items) items :=
  .of_eq (map_renumber_eq fun x n => withOrder_withOrder x n 0)

theorem map_id (same : SameItems xs ys) : (xs.map id).Perm (ys.map id) := by
  have bare : ∀ items : List α, (items.map (withOrder · 0)).map id = items.map id := fun items => by
    simp [Function.comp_def]
  rw [← bare xs, ← bare ys]
  exact List.Perm.map id same

/-- Each item of the one list is, but for its number, an item of the other. -/
theorem exists_of_mem (same : SameItems xs ys) {x : α} (member : x ∈ xs) :
    ∃ y ∈ ys, x = withOrder y (order x) := by
  obtain ⟨y, inside, bare⟩ := List.mem_map.1 (same.mem_iff.1 (List.mem_map_of_mem member))
  refine ⟨y, inside, ?_⟩
  rw [← withOrder_withOrder y 0, bare, withOrder_withOrder, withOrder_order]

end SameItems

theorem getElem?_numberFrom (n : Nat) (items : List α) (i : Nat) :
    (numberFrom n items)[i]? = items[i]?.map (withOrder · (n + i)) := by
  induction items generalizing n i with
  | nil => rfl
  | cons x xs ih =>
      cases i with
      | zero => rfl
      | succ i => simp only [numberFrom, List.getElem?_cons_succ, ih, Nat.succ_add_eq_add_succ]

/-- An item is numbered by the place at which it is listed. -/
theorem getElem?_renumber (items : List α) (i : Nat) :
    (renumber items)[i]? = items[i]?.map (withOrder · (i + 1)) := by
  rw [renumber, getElem?_numberFrom, Nat.add_comm 1 i]

/-- A renumbered item is one of the items with another number. -/
theorem mem_renumber {x : α} (member : x ∈ renumber items) :
    ∃ y ∈ items, ∃ n, x = withOrder y n := by
  have general : ∀ n, x ∈ numberFrom n items → ∃ y ∈ items, ∃ n, x = withOrder y n := by
    clear member
    intro n member
    induction items generalizing n with
    | nil => exact absurd member List.not_mem_nil
    | cons y ys ih =>
        rcases List.mem_cons.1 member with rfl | later
        · exact ⟨y, .head _, n, rfl⟩
        · obtain ⟨z, inside, m, rfl⟩ := ih (n + 1) later
          exact ⟨z, .tail _ inside, m, rfl⟩
  exact general 1 member

/-- Every item is there after renumbering, with some number. -/
theorem exists_mem_renumber {y : α} (member : y ∈ items) :
    ∃ n, withOrder y n ∈ renumber items := by
  have general : ∀ n, ∃ m, withOrder y m ∈ numberFrom n items := by
    intro n
    induction items generalizing n with
    | nil => exact absurd member List.not_mem_nil
    | cons x xs ih =>
        rcases List.mem_cons.1 member with rfl | later
        · exact ⟨n, .head _⟩
        · obtain ⟨m, inside⟩ := ih later (n + 1)
          exact ⟨m, .tail _ inside⟩
  exact general 1

theorem numberFrom_eq_self {n : Nat} (dense : items.map order = List.range' n items.length) :
    numberFrom n items = items := by
  induction items generalizing n with
  | nil => rfl
  | cons x xs ih =>
      simp only [List.map_cons, List.length_cons, List.range'_succ, List.cons.injEq] at dense
      rw [numberFrom, ih dense.2, ← dense.1, withOrder_order]

/-- Sorting changes nothing if the items are numbered from one as they are listed. -/
theorem sorted_of_numbered (numbered : items.map order = List.range' 1 items.length) :
    sorted items = items := by
  have ascending : (items.map order).Pairwise (· ≤ ·) := numbered ▸ List.pairwise_le_range'
  exact sorted_eq_self (List.pairwise_map.1 ascending)

/-- Numbering a sorted dense list changes nothing. -/
theorem renumber_sorted (dense : isDense items = true) : renumber (sorted items) = sorted items :=
  numberFrom_eq_self (by rw [length_sorted]; exact isDense_iff.1 dense)

/-- The numbers of a renumbered list strictly ascend. -/
theorem pairwise_lt_renumber (items : List α) :
    (renumber items).Pairwise (order · < order ·) := by
  have ascending : ((renumber items).map order).Pairwise (· < ·) := by
    rw [map_order_renumber]
    exact List.pairwise_lt_range'
  exact List.pairwise_map.1 ascending

theorem mem_map_id_sorted {x : Id} : x ∈ (sorted items).map id ↔ x ∈ items.map id :=
  ((sorted_perm items).map id).mem_iff

theorem nodup_map_id_sorted (distinct : (items.map id).Nodup) : ((sorted items).map id).Nodup :=
  ((sorted_perm items).map id).nodup_iff.2 distinct

/-- Insertion splits the sorted items at some place and numbers them anew. -/
theorem insertAt_eq (items : List α) (new : α) (index : Nat) : insertAt items new index =
    renumber ((sorted items).take index ++ new :: (sorted items).drop index) :=
  rfl

theorem perm_insertion (items : List α) (new : α) (index : Nat) :
    ((sorted items).take index ++ new :: (sorted items).drop index).Perm (items ++ [new]) := by
  refine (List.perm_middle.trans (.cons _ ?_)).trans (List.perm_append_singleton ..).symm
  rw [List.take_append_drop]
  exact sorted_perm items

/-- What has been put in is listed, with some number. -/
theorem exists_mem_insertAt (items : List α) (new : α) (index : Nat) :
    ∃ n, withOrder new n ∈ insertAt items new index :=
  exists_mem_renumber (List.mem_append_right _ List.mem_cons_self)

theorem append_eq (items : List α) (new : α) :
    append items new = renumber (sorted items ++ [new]) := by
  have whole : (sorted items).take items.length = sorted items :=
    List.take_of_length_le (Nat.le_of_eq (length_sorted items))
  have none : (sorted items).drop items.length = [] :=
    List.drop_of_length_le (Nat.le_of_eq (length_sorted items))
  rw [append, insertAt_eq, whole, none]

/-- The only item with an identifier is the one found. -/
theorem find?_id_eq_some (distinct : (items.map id).Nodup) {x : α} (member : x ∈ items) :
    items.find? (id · = id x) = some x := by
  obtain ⟨y, found⟩ := Option.isSome_iff_exists.1
    (List.find?_isSome.2 ⟨x, member, decide_eq_true rfl⟩ : (items.find? (id · = id x)).isSome)
  have same : id y = id x := by simpa using List.find?_some found
  rw [found, List.inj_on_of_nodup_map distinct (List.mem_of_find?_eq_some found) member same]

/-- Without an item that has an identifier of its own, there are those in front of it and behind
it. -/
theorem filter_id_middle {front back : List α} {x : α}
    (distinct : ((front ++ x :: back).map id).Nodup) :
    (front ++ x :: back).filter (id · ≠ id x) = front ++ back := by
  rw [List.map_append, List.map_cons] at distinct
  have absent : ∀ y ∈ front ++ back, id y ≠ id x := by
    intro y inside same
    refine (List.nodup_cons.1 (List.nodup_middle.1 distinct)).1 ?_
    rw [← List.map_append, ← same]
    exact List.mem_map_of_mem inside
  rw [List.filter_append, List.filter_cons_of_neg (by simp), ← List.filter_append,
    List.filter_eq_self.2 fun y inside => decide_eq_true (absent y inside)]

/-- The items are those left after one is taken out, and that one. -/
theorem perm_without (distinct : (items.map id).Nodup) {x : α} (member : x ∈ items) :
    items.Perm ((sorted items).filter (id · ≠ id x) ++ [x]) := by
  have outside : x ∉ (sorted items).filter (id · ≠ id x) := fun inside =>
    of_decide_eq_true (List.mem_filter.1 inside).2 rfl
  have rest : ((sorted items).filter (id · ≠ id x)).Nodup :=
    (((sorted_perm items).nodup_iff.2 (distinct.of_map id)).filter _)
  refine (List.perm_ext_iff_of_nodup (distinct.of_map id) ?_).2 fun y => ?_
  · exact List.perm_append_singleton x _ |>.nodup_iff.2 (List.nodup_cons.2 ⟨outside, rest⟩)
  · rw [List.mem_append, List.mem_filter, mem_sorted, List.mem_singleton]
    constructor
    · intro inside
      by_cases same : id y = id x
      · exact .inr (List.inj_on_of_nodup_map distinct inside member same)
      · exact .inl ⟨inside, decide_eq_true same⟩
    · rintro (⟨inside, -⟩ | rfl)
      · exact inside
      · exact member

/-- The item put back anywhere among those left, there are the same items again. -/
theorem perm_of_without (distinct : (items.map id).Nodup) {x : α} (member : x ∈ items)
    {front back : List α} (split : (sorted items).filter (id · ≠ id x) = front ++ back) :
    (front ++ x :: back).Perm items := by
  apply (List.perm_middle.trans (List.perm_append_singleton ..).symm).trans
  rw [← split]
  exact (perm_without distinct member).symm

end Ordered

section

variable [Ordered α] {items : List α}

open Ordered hiding id

theorem takeFirst?_eq_none {x : Id} (absent : x ∉ items.map Ordered.id) :
    takeFirst? x items = none := by
  induction items with
  | nil => rfl
  | cons y ys ih =>
      rw [List.map_cons, List.mem_cons, not_or] at absent
      rw [takeFirst?, if_neg (Ne.symm absent.1), ih absent.2, Option.map_none]

/-- The item with an identifier of its own is taken out and all others stay. -/
theorem takeFirst?_eq_some (distinct : (items.map Ordered.id).Nodup) {x : α} (member : x ∈ items) :
    takeFirst? (Ordered.id x) items = some (x, items.filter (Ordered.id · ≠ Ordered.id x)) := by
  induction items with
  | nil => exact absurd member List.not_mem_nil
  | cons y ys ih =>
      rw [List.map_cons, List.nodup_cons] at distinct
      rcases List.mem_cons.1 member with rfl | later
      · have others : ys.filter (Ordered.id · ≠ Ordered.id x) = ys := by
          refine List.filter_eq_self.2 fun z inside => decide_eq_true fun same => ?_
          exact distinct.1 (List.mem_map.2 ⟨z, inside, same⟩)
        rw [takeFirst?, if_pos rfl, List.filter_cons_of_neg (by simp), others]
      · have differs : Ordered.id y ≠ Ordered.id x := fun same =>
          distinct.1 (List.mem_map.2 ⟨x, later, same.symm⟩)
        rw [takeFirst?, if_neg differs, ih distinct.2 later, Option.map_some,
          List.filter_cons_of_pos (by simp [differs])]

theorem takeOut?_eq_some (distinct : (items.map Ordered.id).Nodup) {x : α} (member : x ∈ items) :
    takeOut? items (Ordered.id x) =
      some (x, (sorted items).filter (Ordered.id · ≠ Ordered.id x)) :=
  takeFirst?_eq_some (nodup_map_id_sorted distinct) (mem_sorted.2 member)

theorem takeOut?_eq_none {x : Id} (absent : x ∉ items.map Ordered.id) : takeOut? items x = none :=
  takeFirst?_eq_none (mt mem_map_id_sorted.1 absent)

/-- The place between the items called `front` and those called `back` is next to `target`, on the
given side of it. -/
def Side.Borders (side : Side) (target : Id) (front back : List Id) : Prop :=
  match side with
  | .before => back.head? = some target
  | .after => front.getLast? = some target

/-- The landing place lies next to the target. -/
theorem borders_of_landingIndex? {target : Id} {side : Side} {index : Nat}
    (found : landingIndex? items target side = some index) :
    side.Borders target ((items.take index).map Ordered.id)
      ((items.drop index).map Ordered.id) := by
  obtain ⟨position, first, rfl⟩ := Option.map_eq_some_iff.1 found
  obtain ⟨inside, here, -⟩ := List.findIdx?_eq_some_iff_getElem.1 first
  have same : Ordered.id items[position] = target := by simpa using here
  cases side with
  | before =>
      change ((items.drop position).map Ordered.id).head? = some target
      rw [List.drop_eq_getElem_cons inside, List.map_cons, List.head?_cons, same]
  | after =>
      change ((items.take (position + 1)).map Ordered.id).getLast? = some target
      rw [List.take_succ_eq_append_getElem inside, List.map_append, List.map_cons, List.map_nil,
        List.getLast?_concat, same]

theorem landingIndex?_isSome {target : Id} (member : target ∈ items.map Ordered.id) (side : Side) :
    ∃ index, landingIndex? items target side = some index := by
  obtain ⟨x, inside, same⟩ := List.mem_map.1 member
  have found : (items.findIdx? (Ordered.id · = target)).isSome :=
    List.findIdx?_isSome.trans (List.any_eq_true.2 ⟨x, inside, decide_eq_true same⟩)
  obtain ⟨position, found⟩ := Option.isSome_iff_exists.1 found
  exact ⟨_, Option.map_eq_some_iff.2 ⟨position, found, rfl⟩⟩

theorem landingIndex?_eq_none {target : Id} (absent : target ∉ items.map Ordered.id) (side : Side) :
    landingIndex? items target side = none := by
  refine Option.map_eq_none_iff.2 (List.findIdx?_eq_none_iff.2 fun x inside => ?_)
  exact decide_eq_false fun same => absent (List.mem_map.2 ⟨x, inside, same⟩)

/-- Moving an item next to another one of the list takes it out of the sequence, puts it back at the
target's side and numbers all anew. -/
theorem reorder_eq_ok {ε : Type} (missing : Id → ε) (distinct : (items.map Ordered.id).Nodup)
    {x : α} (member : x ∈ items) {target : Id} (present : target ∈ items.map Ordered.id)
    (other : target ≠ Ordered.id x) (side : Side) :
    ∃ front back, (sorted items).filter (Ordered.id · ≠ Ordered.id x) = front ++ back ∧
      side.Borders target (front.map Ordered.id) (back.map Ordered.id) ∧
      reorder missing items (Ordered.id x) target side = .ok (renumber (front ++ x :: back)) := by
  have remains : target ∈ ((sorted items).filter (Ordered.id · ≠ Ordered.id x)).map Ordered.id := by
    obtain ⟨y, inside, rfl⟩ := List.mem_map.1 present
    refine List.mem_map_of_mem (List.mem_filter.2 ⟨mem_sorted.2 inside, ?_⟩)
    exact decide_eq_true other
  obtain ⟨index, found⟩ := landingIndex?_isSome remains side
  have listed := sorted_eq_self ((pairwise_sorted items).filter (Ordered.id · ≠ Ordered.id x))
  refine ⟨_, _, (List.take_append_drop index _).symm, borders_of_landingIndex? found, ?_⟩
  rw [reorder, takeOut?_eq_some distinct member]
  dsimp only
  rw [found]
  dsimp only
  rw [insertAt_eq, listed]

end

end Outline

import Outline.Proofs.Withdrawals

/-!
# Numbered lists adjusted over and over

A list is densified, takes up new items and loses items, in any sequence.  Its first numbers may
have gaps and repeats.  Each single adjustment leaves the items that are to be there, numbered from
one as they are listed (`Outline.Ordered.Adjustment.exists_settled`), and so does every sequence of
adjustments (`Outline.Ordered.Adjustment.feasible_settles`).
-/

namespace Outline.Ordered

/-- What is done to a numbered list in one go. -/
inductive Adjustment (α : Type) where
  | densify
  | insert (new : α) (index : Nat)
  | append (new : α)
  | withdraw (removed : Id)

variable {α : Type} [Ordered α]

theorem sameItems_insertAt (items : List α) (new : α) (index : Nat) :
    SameItems (insertAt items new index) (items ++ [new]) :=
  (SameItems.renumber _).trans (.of_perm (perm_insertion items new index))

/-- An item has been put in at the index, or last if there are fewer items, and the others are in
the sequence that their numbers give. -/
structure PutIn (new : α) (index : Nat) (items left : List α) : Prop where
  there : left[min index items.length]? = some (withOrder new (min index items.length + 1))
  others : (left.eraseIdx (min index items.length)).map id = (sorted items).map id

theorem putIn_insertAt (items : List α) (new : α) (index : Nat) :
    PutIn new index items (insertAt items new index) := by
  have place : ((sorted items).take index).length = min index items.length := by
    rw [List.length_take, length_sorted]
  constructor
  · rw [insertAt_eq, getElem?_renumber, ← place, List.getElem?_append_right (Nat.le_refl _),
      Nat.sub_self, List.getElem?_cons_zero, Option.map_some]
  · rw [← List.eraseIdx_map, insertAt_eq, map_id_renumber, List.map_append, List.map_cons, ← place,
      ← List.length_map id, List.eraseIdx_append_of_length_le (Nat.le_refl _), Nat.sub_self,
      List.eraseIdx_cons_zero, ← List.map_append, List.take_append_drop]

namespace Adjustment

/-- What becomes of a list; `none` if an item is to leave that is not there. -/
def run? (items : List α) : Adjustment α → Option (List α)
  | densify => some (Ordered.densify items)
  | insert new index => some (insertAt items new index)
  | append new => some (Ordered.append items new)
  | withdraw removed => withdraw? items removed

/-- An item that comes is new to the list, and one that leaves is in it. -/
def Suits (items : List α) : Adjustment α → Prop
  | densify => True
  | insert new _ | append new => id new ∉ items.map id
  | withdraw removed => removed ∈ items.map id

/-- Each adjustment suits the list that the earlier ones have left. -/
def Feasible (items : List α) : List (Adjustment α) → Prop
  | [] => True
  | next :: later => next.Suits items ∧ ∀ left ∈ next.run? items, Feasible left later

/-- The items that are to be there afterwards, whatever their sequence and their numbers. -/
def stock (items : List α) : Adjustment α → List α
  | densify => items
  | insert new _ | append new => items ++ [new]
  | withdraw removed => items.filter (id · ≠ removed)

/-- A list holds just the items of `held`, each once and with all other fields as they are there,
and numbers them from one as it lists them. -/
structure Settled (held left : List α) : Prop where
  numbered : left.map order = List.range' 1 left.length
  distinct : (left.map id).Nodup
  kept : SameItems left held

instance (items : List α) : (adjustment : Adjustment α) → Decidable (adjustment.Suits items)
  | densify => inferInstanceAs (Decidable True)
  | insert new _ | append new => inferInstanceAs (Decidable (id new ∉ items.map id))
  | withdraw removed => inferInstanceAs (Decidable (removed ∈ items.map id))

instance decidableFeasible :
    (adjustments : List (Adjustment α)) → (items : List α) → Decidable (Feasible items adjustments)
  | [], _ => inferInstanceAs (Decidable True)
  | next :: later, items =>
    have := decidableFeasible later
    inferInstanceAs (Decidable (next.Suits items ∧ ∀ left ∈ next.run? items, Feasible left later))

variable {items held left : List α} {adjustment : Adjustment α}
  {adjustments later : List (Adjustment α)}

theorem sameItems_stock (same : SameItems items held) (adjustment : Adjustment α) :
    SameItems (adjustment.stock items) (adjustment.stock held) := by
  have joined : ∀ new : α, SameItems (items ++ [new]) (held ++ [new]) := by
    intro new
    rw [SameItems, List.map_append, List.map_append]
    exact same.append_right _
  cases adjustment with
  | densify => exact same
  | insert new index => exact joined new
  | append new => exact joined new
  | withdraw removed =>
      rw [stock, stock, SameItems, map_withOrder_filter, map_withOrder_filter]
      exact same.filter _

theorem nodup_stock (distinct : (items.map id).Nodup) (suits : adjustment.Suits items) :
    ((adjustment.stock items).map id).Nodup := by
  have joined : ∀ new : α, id new ∉ items.map id → ((items ++ [new]).map id).Nodup := by
    intro new absent
    rw [List.map_append, List.map_singleton]
    exact (List.perm_append_singleton _ _).nodup_iff.2 (List.nodup_cons.2 ⟨absent, distinct⟩)
  cases adjustment with
  | densify => exact distinct
  | insert new index => exact joined new suits
  | append new => exact joined new suits
  | withdraw removed => exact distinct.sublist (List.filter_sublist.map id)

/-- A suitable adjustment can be made, and settles the list whatever numbers it had. -/
theorem exists_settled (distinct : (items.map id).Nodup) (suits : adjustment.Suits items) :
    ∃ left, adjustment.run? items = some left ∧ Settled (adjustment.stock items) left := by
  -- Every adjustment ends by numbering some list.
  have settled : ∀ list : List α, SameItems (renumber list) (adjustment.stock items) →
      Settled (adjustment.stock items) (renumber list) := by
    intro list kept
    refine ⟨?_, kept.map_id.nodup_iff.2 (nodup_stock distinct suits), kept⟩
    rw [map_order_renumber, length_renumber]
  cases adjustment with
  | densify => exact ⟨_, rfl, settled _ (perm_densify items)⟩
  | insert new index => exact ⟨_, rfl, settled _ (sameItems_insertAt items new index)⟩
  | append new => exact ⟨_, rfl, settled _ (sameItems_insertAt items new items.length)⟩
  | withdraw removed =>
      obtain ⟨x, member, rfl⟩ := List.mem_map.1 suits
      refine ⟨_, withdraw?_eq_densify distinct member, settled _ ?_⟩
      exact (perm_densify _).trans (sameItems_closeGap _ _)

/-- A settled list stays so through all further adjustments. -/
theorem Settled.exists_settled (settled : Settled held items)
    (feasible : Feasible items adjustments) : ∃ left, adjustments.foldlM run? items = some left ∧
      Settled (adjustments.foldl stock held) left := by
  induction adjustments generalizing items held with
  | nil => exact ⟨items, rfl, settled⟩
  | cons next later ih =>
      obtain ⟨suits, feasible⟩ := feasible
      obtain ⟨between, made, again⟩ := Adjustment.exists_settled settled.distinct suits
      have kept := again.kept.trans (sameItems_stock settled.kept next)
      rw [List.foldlM_cons, made, List.foldl_cons]
      exact ih ⟨again.numbered, again.distinct, kept⟩ (feasible between made)

theorem Feasible.exists_settled (distinct : (items.map id).Nodup) (nonempty : adjustments ≠ [])
    (feasible : Feasible items adjustments) : ∃ left, adjustments.foldlM run? items = some left ∧
      Settled (adjustments.foldl stock items) left := by
  cases adjustments with
  | nil => exact absurd rfl nonempty
  | cons next later =>
      obtain ⟨suits, feasible⟩ := feasible
      obtain ⟨between, made, settled⟩ := Adjustment.exists_settled distinct suits
      rw [List.foldlM_cons, made, List.foldl_cons]
      exact settled.exists_settled (feasible between made)

theorem Feasible.earlier {done : List (Adjustment α)} (feasible : Feasible items (done ++ later)) :
    Feasible items done := by
  induction done generalizing items with
  | nil => trivial
  | cons next done ih => exact ⟨feasible.1, fun left made => ih (feasible.2 left made)⟩

/-- Adjustments of a list with distinct identifiers, each of which suits what the earlier ones have
left, leave the items that were there with those that came and without those that left, numbered
from one.  Each item that is put in comes to its index or last, and the others keep the sequence
that their numbers give. -/
theorem feasible_settles (distinct : (items.map id).Nodup) (nonempty : adjustments ≠ [])
    (feasible : Feasible items adjustments) :
    ∃ left, adjustments.foldlM run? items = some left ∧
      Settled (adjustments.foldl stock items) left ∧
      ∀ done new index later, adjustments = done ++ insert new index :: later →
        ∃ before after, done.foldlM run? items = some before ∧
          (insert new index).run? before = some after ∧ PutIn new index before after := by
  obtain ⟨left, made, settled⟩ := feasible.exists_settled distinct nonempty
  refine ⟨left, made, settled, ?_⟩
  intro done new index later split
  have earlier : ∃ before, done.foldlM run? items = some before := by
    by_cases first : done = []
    · exact ⟨items, first ▸ rfl⟩
    · obtain ⟨before, made, -⟩ := (split ▸ feasible).earlier.exists_settled distinct first
      exact ⟨before, made⟩
  obtain ⟨before, made⟩ := earlier
  exact ⟨before, _, made, rfl, putIn_insertAt before new index⟩

/-- The three notes lose one of two that share a number, and take up others between and after. -/
theorem tiedNotes_settle :
    let draft : Member := .fresh (.ofRandom 4) "draft" 9 .leaf .root
    let coda : Member := .fresh (.ofRandom 5) "coda" 0 .leaf .root
    ∃ left, [withdraw (.ofRandom 1), insert draft 1, append coda, densify].foldlM run? tiedNotes =
        some left ∧ Settled (tiedNotes.filter (id · ≠ .ofRandom 1) ++ [draft] ++ [coda]) left := by
  intro draft coda
  have distinct : (tiedNotes.map id).Nodup := by decide
  obtain ⟨left, made, settled, -⟩ := feasible_settles distinct
    (List.cons_ne_nil (withdraw (.ofRandom 1)) [insert draft 1, append coda, densify]) (by decide)
  exact ⟨left, made, settled⟩

end Adjustment

end Outline.Ordered

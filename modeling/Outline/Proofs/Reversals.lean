import Outline.Proofs.Adjustments
import Outline.Proofs.RoundTrips

/-!
# Putting in and taking out

Putting a new item in numbers a list by place, and taking an item out lowers the numbers above its
own.  The one still undoes the other.  Taking out what has just been put in leaves the items that
there were, densified, whatever their numbers (`Outline.Ordered.withdraw?_insertAt`), and so does
putting an item back to its place if no two have one number
(`Outline.Ordered.exists_insertAt_withdraw?`).  A list that is numbered from one as it is listed
comes back as it was, since such a list is its own densification
(`Outline.Ordered.densify_eq_self_iff`).
-/

namespace Outline.Ordered

variable {α : Type} [Ordered α] {items : List α} {x : α} {index : Nat}

/-- Numbering changes nothing just if the items are numbered from one as they are listed. -/
theorem renumber_eq_self_iff :
    renumber items = items ↔ items.map order = List.range' 1 items.length := by
  constructor
  · intro same
    rw [← map_order_renumber, same]
  · exact numberFrom_eq_self

/-- Densifying changes nothing just if the items are numbered from one as they are listed. -/
theorem densify_eq_self_iff :
    densify items = items ↔ items.map order = List.range' 1 items.length := by
  constructor
  · intro same
    have numbers := map_order_renumber (sorted items)
    rwa [length_sorted, ← densify, same] at numbers
  · intro numbered
    rw [densify, sorted_of_numbered numbered, renumber_eq_self_iff.2 numbered]

/-- Taking out an item that has just been put in leaves the list that there was, densified. -/
theorem withdraw?_insertAt (distinct : (items.map id).Nodup) (absent : id x ∉ items.map id)
    (index : Nat) : withdraw? (insertAt items x index) (id x) = some (densify items) := by
  -- Putting in numbers all items anew, so that no two share a number whatever the list was like.
  have suits : (Adjustment.insert x index).Suits items := absent
  obtain ⟨after, made, settled⟩ := Adjustment.exists_settled distinct suits
  obtain rfl : insertAt items x index = after := Option.some.inj made
  have numbers : ((insertAt items x index).map order).Nodup :=
    settled.numbered ▸ List.nodup_range'
  obtain ⟨n, member⟩ := exists_mem_insertAt items x index
  have withdrawn := withdraw?_eq settled.distinct numbers member
  rw [id_withOrder] at withdrawn
  rw [withdrawn, renumber_filter_insertAt fun y inside same =>
    absent (same ▸ List.mem_map_of_mem inside)]

/-- Putting an item back to the place in the sequence from which it has just been taken gives the
list that there was, densified. -/
theorem exists_insertAt_withdraw? (distinct : (items.map id).Nodup)
    (apart : (items.map order).Nodup) (here : (sorted items)[index]? = some x) :
    ∃ rest, withdraw? items (id x) = some rest ∧ insertAt rest x index = densify items := by
  obtain ⟨front, back, split, rfl⟩ :
      ∃ front back, sorted items = front ++ x :: back ∧ front.length = index := by
    obtain ⟨inside, same⟩ := List.getElem?_eq_some_iff.1 here
    refine ⟨_, (sorted items).drop (index + 1), ?_, List.length_take_of_le (Nat.le_of_lt inside)⟩
    rw [← same, ← List.drop_eq_getElem_cons inside, List.take_append_drop]
  -- Those in front stay, so the item's old place among all is its place among the others.
  have others : (sorted items).filter (id · ≠ id x) = front ++ back := by
    have unique := nodup_map_id_sorted distinct
    rw [split] at unique ⊢
    exact filter_id_middle unique
  refine ⟨_, withdraw?_eq distinct apart (mem_sorted.1 (List.mem_of_getElem? here)), ?_⟩
  calc insertAt (renumber ((sorted items).filter (id · ≠ id x))) x front.length
      = insertAt (renumber (front ++ back)) (withOrder x (order x)) front.length := by
        rw [others, withOrder_order]
    _ = renumber (front ++ x :: back) := insertAt_renumber front back x (order x)
    _ = densify items := by rw [← split, densify]

/-- Different items that are numbered from one as they are listed. -/
structure Counted (items : List α) : Prop where
  distinct : (items.map id).Nodup
  numbered : items.map order = List.range' 1 items.length

/-- In a list that is numbered from one as it is listed, taking out undoes putting in, at any index,
and putting back to the old place undoes taking out.  Sorting, numbering and densifying leave such
a list alone. -/
theorem Counted.undoes (counted : Counted items) :
    (∀ (x : α) (index : Nat), id x ∉ items.map id →
      withdraw? (insertAt items x index) (id x) = some items) ∧
    (∀ (x : α) (index : Nat), items[index]? = some x →
      ∃ rest, withdraw? items (id x) = some rest ∧ insertAt rest x index = items) ∧
    sorted items = items ∧ renumber items = items ∧ densify items = items := by
  obtain ⟨distinct, numbered⟩ := counted
  have listed := sorted_of_numbered numbered
  have dense := densify_eq_self_iff.2 numbered
  refine ⟨?_, ?_, listed, renumber_eq_self_iff.2 numbered, dense⟩
  · intro x index absent
    rw [withdraw?_insertAt distinct absent, dense]
  · intro x index here
    have apart : (items.map order).Nodup := numbered ▸ List.nodup_range'
    have back := exists_insertAt_withdraw? distinct apart (listed.symm ▸ here)
    rwa [dense] at back

/-- A third root goes beyond the end of two and leaves again, and the first of the two leaves and
comes back. -/
theorem shelves_undoes :
    let shelf : Root := { Root.fresh (.ofRandom 6) "shelf" .tree with order := 1 }
    let desk : Root := { Root.fresh (.ofRandom 7) "desk" .tree with order := 2 }
    let lamp : Root := Root.fresh (.ofRandom 8) "lamp" .tree
    withdraw? (insertAt [shelf, desk] lamp 9) lamp.id = some [shelf, desk] ∧
      ∃ rest, withdraw? [shelf, desk] shelf.id = some rest ∧
        insertAt rest shelf 0 = [shelf, desk] := by
  intro shelf desk lamp
  have counted : Counted [shelf, desk] := ⟨by decide, by decide⟩
  obtain ⟨taken, returned, -⟩ := counted.undoes
  exact ⟨taken lamp 9 (by decide), returned shelf 0 rfl⟩

end Outline.Ordered

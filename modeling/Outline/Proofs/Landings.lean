import Outline.Proofs.Grounds

/-!
# Where reordered items land

An item moves next to another of its list.  The list may be in any sequence, and its numbers may
have gaps and repeats.  What comes out is numbered from one, has the moved item beside the target
and keeps the others in the sequence that their numbers gave (`Outline.Ordered.Landed`).  A move
fails just if the two are not different items of the list (`Outline.reorder_eq_ok_iff`).
-/

namespace Outline

/-- In a sequence, `moved` stands next to `target`, on the given side of it. -/
def Side.Adjoins (side : Side) (moved target : Id) (sequence : List Id) : Prop :=
  match side with
  | .before => [moved, target] <:+: sequence
  | .after => [target, moved] <:+: sequence

/-- What is put in at a place next to the target adjoins it. -/
theorem Side.Borders.adjoins {side : Side} {target : Id} {front back : List Id}
    (borders : side.Borders target front back) (moved : Id) :
    side.Adjoins moved target (front ++ moved :: back) := by
  cases side with
  | before =>
      obtain ⟨rest, rfl⟩ := List.head?_eq_some_iff.1 borders
      exact ⟨front, rest, by simp⟩
  | after =>
      obtain ⟨rest, rfl⟩ := List.getLast?_eq_some_iff.1 borders
      exact ⟨rest, back, by simp⟩

namespace Ordered

variable {α : Type} [Ordered α]

/-- A list once the item called `moved` has come next to the one called `target`. -/
structure Landed (items : List α) (moved target : Id) (side : Side) (after : List α) : Prop where
  numbered : after.map order = List.range' 1 items.length
  /-- Nothing but numbers has changed. -/
  kept : SameItems after items
  beside : side.Adjoins moved target (after.map id)
  /-- The others keep the sequence that their numbers gave. -/
  others : (after.map id).filter (· ≠ moved) = ((sorted items).map id).filter (· ≠ moved)

/-- What answers a request to move one item of a list next to another. -/
structure Reordering (items : List α) (moved target : Id) (side : Side)
    (answer : Except Absence (List α)) : Prop where
  succeeds : (∃ after, answer = .ok after) ↔
    moved ∈ items.map id ∧ target ∈ items.map id ∧ moved ≠ target
  landed : ∀ after, answer = .ok after → Landed items moved target side after

end Ordered

section

open Ordered hiding id

variable {α ε : Type} [Ordered α] {items after : List α} {moved target : Id} {side : Side}
  {missing : Id → ε}

/-- A move succeeds just if it names two items of the list. -/
theorem reorder_eq_ok_iff (distinct : (items.map Ordered.id).Nodup) :
    (∃ after, reorder missing items moved target side = .ok after) ↔
      moved ∈ items.map Ordered.id ∧ target ∈ items.map Ordered.id ∧ moved ≠ target := by
  constructor
  · rintro ⟨after, reordered⟩
    obtain ⟨listed, beside, -⟩ := listed_of_reorder reordered
    refine ⟨listed, beside, ?_⟩
    rintro rfl
    -- The target is looked for once the moved item has been taken out.
    obtain ⟨x, member, rfl⟩ := List.mem_map.1 listed
    have gone : Ordered.id x ∉
        ((sorted items).filter (Ordered.id · ≠ Ordered.id x)).map Ordered.id := by
      intro inside
      obtain ⟨y, left, same⟩ := List.mem_map.1 inside
      exact of_decide_eq_true (List.mem_filter.1 left).2 same
    rw [reorder, takeOut?_eq_some distinct member] at reordered
    dsimp only at reordered
    rw [landingIndex?_eq_none gone] at reordered
    cases reordered
  · rintro ⟨listed, beside, other⟩
    obtain ⟨x, member, rfl⟩ := List.mem_map.1 listed
    obtain ⟨front, back, -, -, reordered⟩ :=
      reorder_eq_ok missing distinct member beside other.symm side
    exact ⟨_, reordered⟩

/-- A move that succeeds takes an item of the list out of the sequence and puts it back next to the
target. -/
theorem exists_landing (distinct : (items.map Ordered.id).Nodup)
    (reordered : reorder missing items moved target side = .ok after) :
    ∃ x ∈ items, ∃ front back, Ordered.id x = moved ∧
      (sorted items).filter (Ordered.id · ≠ moved) = front ++ back ∧
      side.Borders target (front.map Ordered.id) (back.map Ordered.id) ∧
      after = renumber (front ++ x :: back) := by
  obtain ⟨listed, beside, other⟩ := (reorder_eq_ok_iff distinct).1 ⟨after, reordered⟩
  obtain ⟨x, member, rfl⟩ := List.mem_map.1 listed
  obtain ⟨front, back, split, borders, again⟩ :=
    reorder_eq_ok missing distinct member beside other.symm side
  exact ⟨x, member, front, back, rfl, split, borders, Except.ok.inj (reordered.symm.trans again)⟩

theorem landed_of_reorder (distinct : (items.map Ordered.id).Nodup)
    (reordered : reorder missing items moved target side = .ok after) :
    Landed items moved target side after := by
  obtain ⟨x, member, front, back, rfl, split, borders, rfl⟩ := exists_landing distinct reordered
  have perm : (front ++ x :: back).Perm items := perm_of_without distinct member split
  have ids : (renumber (front ++ x :: back)).map Ordered.id =
      front.map Ordered.id ++ Ordered.id x :: back.map Ordered.id := by
    rw [map_id_renumber, List.map_append, List.map_cons]
  refine ⟨?_, (SameItems.renumber _).trans (.of_perm perm), ?_, ?_⟩
  · rw [map_order_renumber, perm.length_eq]
  · rw [ids]
    exact borders.adjoins _
  · have left : ((sorted items).map Ordered.id).filter (· ≠ Ordered.id x) =
        front.map Ordered.id ++ back.map Ordered.id := by
      rw [← List.map_append, ← split, List.filter_map]
      rfl
    rw [ids, filter_middle, ← left, List.filter_filter]
    simp

theorem reordering_reorder {missing : Id → Absence} (distinct : (items.map Ordered.id).Nodup) :
    Reordering items moved target side (reorder missing items moved target side) where
  succeeds := reorder_eq_ok_iff distinct
  landed _ := landed_of_reorder distinct

end

/-- A member that comes from another listing is put in next to the target and all are numbered
anew. -/
theorem Listing.exists_moveBeside_eq_ok {source destination : Listing} {moved : Id} {rest : Forest}
    {m : Member} (removed : source.remove moved = .ok (rest, m)) {target : Id}
    (present : target ∈ destination.members.map Member.id) (side : Side) (path : Path) :
    ∃ front back, Ordered.sorted destination.members = front ++ back ∧
      side.Borders target (front.map Member.id) (back.map Member.id) ∧
      source.moveBeside destination moved target side path = .ok {
        source := rest
        destination := Ordered.renumber (front ++ m.rebased path :: back)
        moved := m } := by
  obtain ⟨index, found⟩ := landingIndex?_isSome (α := Member)
    (Ordered.mem_map_id_sorted.2 present) side
  refine ⟨_, _, (List.take_append_drop index _).symm, borders_of_landingIndex? found, ?_⟩
  simp only [moveBeside, removed, found, Ordered.insertAt_eq,
    Ordered.sorted_eq_self (Ordered.pairwise_sorted destination.members)]

/-- A member moves next to a sibling, and a root next to a root, just if both are listed and they
are not the same.  It then stands there on the side asked for, all are numbered from one, the others
keep the sequence of their numbers, and nothing else about any of them changes. -/
theorem reorders_land :
    (∀ siblings : Listing, (siblings.members.map Member.id).Nodup → ∀ moved target side,
      Ordered.Reordering siblings.members moved target side
        (siblings.reorder moved target side)) ∧
    ∀ roots : List Root, (roots.map Root.id).Nodup → ∀ moved target side,
      Ordered.Reordering roots moved target side (reorderRoots roots moved target side) :=
  ⟨fun _ distinct _ _ _ => reordering_reorder (α := Member) distinct,
    fun _ distinct _ _ _ => reordering_reorder (α := Root) distinct⟩

/-- The last of the three notes comes before one of those that share a number, and the second of two
unnumbered roots before the first. -/
theorem tiedNotes_reorders_land :
    let listing : Listing := ⟨.ofRoot (.ofRandom 9), Ordered.tiedNotes⟩
    let roots : List Root := [.fresh (.ofRandom 6) "shelf" .tree, .fresh (.ofRandom 7) "desk" .tree]
    (∃ after, listing.reorder (.ofRandom 3) (.ofRandom 1) .before = .ok after ∧
      Ordered.Landed listing.members (.ofRandom 3) (.ofRandom 1) .before after) ∧
    ∃ after, reorderRoots roots (.ofRandom 7) (.ofRandom 6) .before = .ok after ∧
      Ordered.Landed roots (.ofRandom 7) (.ofRandom 6) .before after := by
  intro listing roots
  have notes := reorders_land.1 listing (by decide) (.ofRandom 3) (.ofRandom 1) .before
  have both := reorders_land.2 roots (by decide) (.ofRandom 7) (.ofRandom 6) .before
  obtain ⟨after, reordered⟩ := notes.succeeds.2 (by decide)
  obtain ⟨after', reordered'⟩ := both.succeeds.2 (by decide)
  exact ⟨⟨after, reordered, notes.landed after reordered⟩, after', reordered',
    both.landed after' reordered'⟩

end Outline

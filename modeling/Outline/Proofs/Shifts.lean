import Outline.Proofs.Landings
import Outline.Proofs.Renumberings

/-!
# What a move shifts

An item moves next to another of a list that is numbered from one as it is listed.  If it stands
there already, the list stays as it is.  If not, the items between its old place and its new one
come one place towards the old one and all others stay, so that just the former and the moved item
take new numbers (`Outline.exists_shifts`).
-/

namespace Outline

/-- A sequence can be split in one way only at an item that it has once. -/
theorem eq_of_middle_eq {α : Type} {x : α} {front back front' back' : List α}
    (distinct : (front ++ x :: back).Nodup)
    (same : front ++ x :: back = front' ++ x :: back') : front = front' ∧ back = back' := by
  have outside := (List.nodup_cons.1 (List.nodup_middle.1 distinct)).1
  obtain ⟨left, -, right⟩ := (List.append_cons_inj_of_notMem
    (fun inside => outside (List.mem_append_left _ inside))
    (fun inside => outside (List.mem_append_right _ inside))).1 same
  exact ⟨left, right⟩

namespace Side

variable {side : Side} {moved target : Id} {front back front' back' : List Id}

/-- In a sequence without repeats there is one place next to a target on a given side. -/
theorem Borders.ext (borders : side.Borders target front back)
    (borders' : side.Borders target front' back') (same : front ++ back = front' ++ back')
    (distinct : (front ++ back).Nodup) : front = front' ∧ back = back' := by
  cases side with
  | before =>
      obtain ⟨rest, rfl⟩ := List.head?_eq_some_iff.1 borders
      obtain ⟨rest', rfl⟩ := List.head?_eq_some_iff.1 borders'
      obtain ⟨rfl, rfl⟩ := eq_of_middle_eq distinct same
      exact ⟨rfl, rfl⟩
  | after =>
      obtain ⟨rest, rfl⟩ := List.getLast?_eq_some_iff.1 borders
      obtain ⟨rest', rfl⟩ := List.getLast?_eq_some_iff.1 borders'
      rw [List.append_assoc] at distinct
      rw [List.append_assoc, List.append_assoc] at same
      obtain ⟨rfl, rfl⟩ := eq_of_middle_eq distinct same
      exact ⟨rfl, rfl⟩

/-- An item of a sequence without repeats stands next to the target just if its place is there. -/
theorem adjoins_iff_borders (distinct : (front ++ moved :: back).Nodup) :
    side.Adjoins moved target (front ++ moved :: back) ↔ side.Borders target front back := by
  refine ⟨fun adjoins => ?_, fun borders => borders.adjoins moved⟩
  cases side with
  | before =>
      obtain ⟨xs, ys, same⟩ := adjoins
      rw [List.append_assoc] at same
      obtain ⟨rfl, rfl⟩ := eq_of_middle_eq distinct same.symm
      rfl
  | after =>
      obtain ⟨xs, ys, same⟩ := adjoins
      rw [List.append_cons, List.append_assoc] at same
      obtain ⟨rfl, rfl⟩ := eq_of_middle_eq distinct same.symm
      exact List.getLast?_concat

end Side

/-- The place to which the item at `k` comes when the one at `i` moves to `j`. -/
def shifted (i j k : Nat) : Nat :=
  if k = i then j else if i < k ∧ k ≤ j then k - 1 else if j ≤ k ∧ k < i then k + 1 else k

/-- An item comes to another place just if it is the moved one or stands between its places. -/
theorem shifted_ne_iff {i j k : Nat} : shifted i j k ≠ k ↔ i ≠ j ∧ min i j ≤ k ∧ k ≤ max i j := by
  unfold shifted
  split
  · omega
  · split
    · omega
    · split <;> omega

theorem getElem?_middle {α : Type} (front back : List α) (x : α) (k : Nat) :
    (front ++ x :: back)[k]? = if k < front.length then (front ++ back)[k]? else
      if k = front.length then some x else (front ++ back)[k - 1]? := by
  split
  next early => rw [List.getElem?_append_left early, List.getElem?_append_left early]
  next late =>
    rw [List.getElem?_append_right (Nat.le_of_not_lt late)]
    split
    next here => rw [here, Nat.sub_self, List.getElem?_cons_zero]
    next beyond =>
      rw [List.getElem?_append_right (by omega), List.getElem?_cons]
      rw [if_neg (by omega)]
      congr 1
      omega

/-- Where the items are once one of them has been put elsewhere among the others. -/
theorem getElem?_shifted {α : Type} {front back front' back' : List α}
    (same : front ++ back = front' ++ back') (x : α) (k : Nat) :
    (front' ++ x :: back')[shifted front.length front'.length k]? = (front ++ x :: back)[k]? := by
  rw [getElem?_middle, getElem?_middle, same]
  unfold shifted
  split
  next here => simp [here]
  next other =>
    split
    next down => rw [if_pos (by omega), if_neg (by omega)]
    next =>
      split
      next up => rw [if_neg (by omega), if_neg (by omega), if_pos (by omega), Nat.add_sub_cancel]
      next outside =>
        by_cases early : k < front.length
        · rw [if_pos (by omega), if_pos early]
        · rw [if_neg (by omega), if_neg (by omega), if_neg early]

namespace Ordered

variable {α : Type} [Ordered α]

/-- The item called `moved` has gone from the place `i` of a list to the place `j`, and all items
are numbered from one where they have come. -/
structure Shifts (items after : List α) (moved : Id) (i j : Nat) : Prop where
  left : (items.map id)[i]? = some moved
  came : (after.map id)[j]? = some moved
  shifted : ∀ k x, items[k]? = some x →
    after[shifted i j k]? = some (withOrder x (shifted i j k + 1))

/-- What becomes of a list, and which commands follow, when the item called `moved` goes next to the
one called `target`.  If it stands there already, nothing happens.  If not, the items from the one
place to the other take new numbers, each by one command. -/
structure ShiftedBeside {γ : Type} (items after : List α) (moved target : Id) (side : Side)
    (command : α → Nat → γ) (commands : List γ) : Prop where
  stays : after = items ↔ side.Adjoins moved target (items.map id)
  idle : commands = [] ↔ side.Adjoins moved target (items.map id)
  shifts : ¬ side.Adjoins moved target (items.map id) → ∃ i j, i ≠ j ∧
    Shifts items after moved i j ∧ commands.Nodup ∧
    ∀ c, c ∈ commands ↔ ∃ k x, items[k]? = some x ∧ min i j ≤ k ∧ k ≤ max i j ∧
      c = command x (Outline.shifted i j k + 1)

end Ordered

section

open Ordered hiding id

variable {α ε γ : Type} [Ordered α] {items after : List α} {moved target : Id} {side : Side}
  {missing : Id → ε}

/-- In a list that is numbered from one as it is listed, a move shifts the items between the old
place and the new one.  The places are the same just if the moved item stands there already. -/
theorem exists_shifts (distinct : (items.map Ordered.id).Nodup)
    (listed : items.map order = List.range' 1 items.length)
    (reordered : reorder missing items moved target side = .ok after) :
    ∃ i j, Shifts items after moved i j ∧
      (i = j ↔ side.Adjoins moved target (items.map Ordered.id)) ∧ (i = j → after = items) := by
  obtain ⟨x, member, front', back', rfl, split, borders, rfl⟩ := exists_landing distinct reordered
  have sequence := sorted_of_numbered listed
  obtain ⟨front, back, rfl⟩ := List.append_of_mem member
  rw [sequence, filter_id_middle distinct] at split
  have ids : (front ++ x :: back).map Ordered.id =
      front.map Ordered.id ++ Ordered.id x :: back.map Ordered.id := by
    rw [List.map_append, List.map_cons]
  have lengths : front.length = front'.length → front = front' ∧ back = back' :=
    List.append_inj split
  refine ⟨front.length, front'.length, ⟨?_, ?_, ?_⟩, ?_, ?_⟩
  · simp
  · simp
  · intro k y here
    rw [getElem?_renumber, getElem?_shifted split, here, Option.map_some]
  · rw [ids] at distinct ⊢
    rw [Side.adjoins_iff_borders distinct]
    constructor
    · intro same
      obtain ⟨rfl, rfl⟩ := lengths same
      exact borders
    · intro already
      have apart : (front.map Ordered.id ++ back.map Ordered.id).Nodup :=
        (List.nodup_cons.1 (List.nodup_middle.1 distinct)).2
      have alike := congrArg (List.map Ordered.id) split
      rw [List.map_append, List.map_append] at alike
      have same := (already.ext borders alike apart).1
      simpa using congrArg List.length same
  · intro same
    obtain ⟨rfl, rfl⟩ := lengths same
    exact numberFrom_eq_self listed

/-- The items that a move shifts are those whose numbers change. -/
theorem shiftedBeside_of_reorder {command : α → Nat → γ} {commands : List γ}
    (distinct : (items.map Ordered.id).Nodup)
    (listed : items.map order = List.range' 1 items.length)
    (reordered : reorder missing items moved target side = .ok after)
    (renumbers : Renumbers items after command commands) :
    ShiftedBeside items after moved target side command commands := by
  obtain ⟨i, j, shifts, adjoins, stays⟩ := exists_shifts distinct listed reordered
  have landed := landed_of_reorder distinct reordered
  have apart : (after.map Ordered.id).Nodup := landed.kept.map_id.nodup_iff.2 distinct
  have numbered : ∀ k x, items[k]? = some x → order x = k + 1 := by
    intro k x here
    have inside : k < items.length := (List.getElem?_eq_some_iff.1 here).1
    have number := congrArg (·[k]?) listed
    simp only [List.getElem?_map, here, Option.map_some, List.getElem?_range' inside] at number
    have := Option.some.inj number
    omega
  have commanded : ∀ c, c ∈ commands ↔ ∃ k x, items[k]? = some x ∧ shifted i j k ≠ k ∧
      c = command x (shifted i j k + 1) := by
    intro c
    rw [renumbers.mem_iff]
    constructor
    · rintro ⟨x, member, n, inside, differs, rfl⟩
      obtain ⟨k, here⟩ := List.mem_iff_getElem?.1 member
      have there := List.mem_of_getElem? (shifts.shifted k x here)
      have same := List.inj_on_of_nodup_map apart inside there (by simp)
      obtain rfl : n = shifted i j k + 1 := by simpa using congrArg order same
      refine ⟨k, x, here, fun stays => differs ?_, rfl⟩
      rw [stays, numbered k x here]
    · rintro ⟨k, x, here, elsewhere, rfl⟩
      refine ⟨x, List.mem_of_getElem? here, _, List.mem_of_getElem? (shifts.shifted k x here), ?_,
        rfl⟩
      rw [numbered k x here]
      omega
  obtain ⟨x, first, -⟩ := Option.map_eq_some_iff.1 (List.getElem?_map.symm.trans shifts.left)
  refine ⟨⟨?_, fun already => stays (adjoins.2 already)⟩, ⟨?_, ?_⟩, ?_⟩
  · rintro rfl
    exact landed.beside
  · intro none
    by_contra elsewhere
    have moves :=
      shifted_ne_iff.2 ⟨mt adjoins.1 elsewhere, Nat.min_le_left i j, Nat.le_max_left i j⟩
    have commands := (commanded _).2 ⟨i, x, first, moves, rfl⟩
    rw [none] at commands
    exact List.not_mem_nil commands
  · intro already
    refine List.eq_nil_iff_forall_not_mem.2 fun c inside => ?_
    obtain ⟨k, -, -, moves, -⟩ := (commanded c).1 inside
    exact (shifted_ne_iff.1 moves).1 (adjoins.2 already)
  · intro elsewhere
    have apart := mt adjoins.1 elsewhere
    refine ⟨i, j, apart, shifts, renumbers.nodup, fun c => ?_⟩
    simp only [commanded, shifted_ne_iff, apart, not_false_eq_true, true_and, ne_eq, and_assoc]

end

/-- In a list that is numbered from one as it is listed, and in which no identifier recurs at any
depth, a member moves next to a sibling.  The list stays as it is, and its batch is empty, just if
the member stands there already.  If not, the members from its old place to its new one take new
numbers, those passed over one towards its old place, and the batch holds nothing else.  Roots move
likewise. -/
theorem reorders_shift :
    (∀ siblings : Listing,
      siblings.members.map Member.order = List.range' 1 siblings.members.length →
      (Forest.ids siblings.members).Nodup → ∀ moved ∈ siblings.members.map Member.id,
      ∀ target ∈ siblings.members.map Member.id, moved ≠ target → ∀ side, ∃ after updates,
        siblings.reorder moved target side = .ok after ∧
        Change.plan { container := siblings.container, before := siblings.members, after } =
          { container := siblings.container, updates } ∧
        Ordered.ShiftedBeside siblings.members after moved target side Member.renumbering
          updates) ∧
    ∀ roots : List Root, roots.map Root.order = List.range' 1 roots.length →
      (roots.map Root.id).Nodup → ∀ moved ∈ roots.map Root.id, ∀ target ∈ roots.map Root.id,
      moved ≠ target → ∀ side, ∃ after updates, reorderRoots roots moved target side = .ok after ∧
        RootChange.plan { before := roots, after } = { updates } ∧
        Ordered.ShiftedBeside roots after moved target side Root.renumbering updates := by
  constructor
  · intro siblings listed distinct moved member target present other side
    have apart := Forest.nodup_map_id distinct
    obtain ⟨after, reordered⟩ := (reorder_eq_ok_iff (α := Member) apart).2 ⟨member, present, other⟩
    have landed := landed_of_reorder (α := Member) apart reordered
    obtain ⟨updates, renumbers, planned⟩ :=
      Change.plan_renumbered siblings.container distinct landed.kept
    exact ⟨after, updates, reordered, planned,
      shiftedBeside_of_reorder (α := Member) apart listed reordered renumbers⟩
  · intro roots listed distinct moved member target present other side
    obtain ⟨after, reordered⟩ :=
      (reorder_eq_ok_iff (α := Root) distinct).2 ⟨member, present, other⟩
    have landed := landed_of_reorder (α := Root) distinct reordered
    exact ⟨after, _, reordered, rfl, shiftedBeside_of_reorder (α := Root) distinct listed reordered
      (RootChange.renumbers_plan distinct landed.kept)⟩

/-- Three notes, the first of which holds another one. -/
def nestedNotes : Listing where
  container := .ofRoot (.ofRandom 9)
  members := [
    { Member.fresh (.ofRandom 11) "folder" 1 .interior .root with
      children := [.fresh (.ofRandom 14) "inner" 1 .leaf ⟨["folder"]⟩] },
    .fresh (.ofRandom 12) "middle" 2 .leaf .root, .fresh (.ofRandom 13) "last" 3 .leaf .root]

/-- The last note comes before the first, and the second of two roots stays after the other. -/
theorem nestedNotes_reorders_shift :
    let shelf : Root := { Root.fresh (.ofRandom 6) "shelf" .tree with order := 1 }
    let desk : Root := { Root.fresh (.ofRandom 7) "desk" .tree with order := 2 }
    (∃ after updates, nestedNotes.reorder (.ofRandom 13) (.ofRandom 11) .before = .ok after ∧
      Change.plan { container := nestedNotes.container, before := nestedNotes.members, after } =
        { container := nestedNotes.container, updates } ∧
      Ordered.ShiftedBeside nestedNotes.members after (.ofRandom 13) (.ofRandom 11) .before
        Member.renumbering updates) ∧
    ∃ after updates, reorderRoots [shelf, desk] desk.id shelf.id .after = .ok after ∧
      RootChange.plan { before := [shelf, desk], after } = { updates } ∧
      Ordered.ShiftedBeside [shelf, desk] after desk.id shelf.id .after Root.renumbering
        updates := by
  intro shelf desk
  obtain ⟨among, roots⟩ := reorders_shift
  constructor
  · exact among nestedNotes (by decide) (by decide) _ (by decide) _ (by decide) (by decide) _
  · exact roots [shelf, desk] (by decide) (by decide) _ (by decide) _ (by decide) (by decide) _

end Outline

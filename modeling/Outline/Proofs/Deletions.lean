import Mathlib.Data.List.Basic
import Outline.Proofs.Deltas
import Outline.Proofs.Searches

/-!
# Deleted members

A member is deleted with all below it, and the siblings behind it close the gap
(`Outline.Workspace.Cascade`).  No other list is touched, so that every other member is found where
it was, and but for the numbers of those siblings as it was
(`Outline.Workspace.Valid.delete_cascades`).
-/

namespace Outline

/-- The commands that close the gap an item leaves, one for each item behind it. -/
theorem Ordered.Renumbers.mem_iff_of_closeGap {α γ : Type} [Ordered α] {items : List α} {x : α}
    {command : α → Nat → γ} {commands : List γ} (distinct : (items.map Ordered.id).Nodup)
    (member : x ∈ items) (renumbers : Renumbers items
      (((sorted items).filter (Ordered.id · ≠ Ordered.id x)).map (closeGap (order x))) command
      commands) (c : γ) :
    c ∈ commands ↔ ∃ y ∈ items, order x < order y ∧ c = command y (order y - 1) := by
  rw [renumbers.mem_iff]
  constructor
  · rintro ⟨y, listed, n, numbered, differs, rfl⟩
    obtain ⟨z, left, same⟩ := List.mem_map.1 numbered
    have inside := mem_sorted.1 (List.mem_filter.1 left).1
    have named : Ordered.id z = Ordered.id y := by simpa using congrArg Ordered.id same
    obtain rfl := List.inj_on_of_nodup_map distinct inside listed named
    have number := congrArg order same
    rw [order_closeGap, order_withOrder] at number
    split at number
    next behind => exact ⟨z, listed, behind, by rw [number]⟩
    next => exact absurd number differs
  · rintro ⟨y, listed, behind, rfl⟩
    have other : Ordered.id y ≠ Ordered.id x := by
      intro same
      obtain rfl := List.inj_on_of_nodup_map distinct listed member same
      exact Nat.lt_irrefl _ behind
    refine ⟨y, listed, order y - 1, List.mem_map.2 ⟨y, ?_, if_pos behind⟩, by omega, rfl⟩
    exact List.mem_filter.2 ⟨mem_sorted.2 listed, decide_eq_true other⟩

namespace Member

variable (m : Member) (gap : Nat)

/-- Closing a gap changes a number at most. -/
theorem closeGap_eq : Ordered.closeGap gap m =
    { m with order := if gap < m.order then m.order - 1 else m.order } := by
  rw [Ordered.closeGap, ordered_order, ordered_withOrder]
  split
  next => rfl
  next => exact m.mk_eta.symm

variable {m}

/-- A row shows all of a member but its children. -/
theorem shallow_eq_of_row {x : Member} {container parent : Container} {n : Nat}
    (same : m.row container = { x.row parent with order := n }) :
    container = parent ∧ m.shallow = { x.shallow with order := n } := by
  cases m
  cases x
  simp only [row, Row.mk.injEq] at same
  obtain ⟨rfl, rfl, rfl, rfl, rfl, rfl⟩ := same
  exact ⟨rfl, rfl⟩

/-- The identifiers of a family are those of the member and all listed below it. -/
theorem mem_ids_iff_lists (owner : Container) (id : Id) :
    id ∈ m.ids ↔ ∃ parent n, Forest.Lists [m] owner parent n ∧ n.id = id := by
  rw [← Forest.ids_singleton, ← Forest.map_id_rows [m] owner, List.mem_map]
  constructor
  · rintro ⟨row, inside, rfl⟩
    obtain ⟨parent, n, rfl, listed⟩ := Forest.mem_rows_iff.1 inside
    exact ⟨parent, n, listed, rfl⟩
  · rintro ⟨parent, n, listed, rfl⟩
    exact ⟨n.row parent, Forest.mem_rows_iff.2 ⟨parent, n, rfl, listed⟩, rfl⟩

end Member

namespace Workspace

/-- What the deletion of `m` from among `siblings`, which stand at `site`, plans and leaves. -/
structure Cascade (w w' : Workspace) (m : Member) (site : Site) (siblings : Forest)
    (change : Change) : Prop where
  container : change.container = site.container
  /-- The member and those below it are deleted, each before those below it. -/
  deleted : change.deleted = m.subtree.map Member.id
  family : ∀ id, id ∈ change.deleted ↔
    ∃ parent n, Forest.Lists [m] site.container parent n ∧ n.id = id
  once : change.deleted.Nodup
  creates : change.plan.creates = []
  deletes : change.plan.deletes = change.deleted
  /-- Each sibling behind the member comes one place further up. -/
  updates : change.plan.updates.Perm
    ((siblings.filter (m.order < ·.order)).map fun s => s.renumbering (s.order - 1))
  gone : ∀ id ∈ change.deleted, w'.locate? id = none
  /-- All others are found in the container in which they were, the same but for that number and
  for what has been deleted below them. -/
  stays : ∀ x place, w.Stands x place → x.id ∉ change.deleted →
    ∃ found, w'.locate? x.id = some found ∧ found.container = place.container ∧
      found.member.shallow = { x.shallow with
        order := if place.container = site.container ∧ m.order < x.order then x.order - 1
          else x.order }

variable {w : Workspace}

section

variable {container : Container} {present : Forest} {site : Site} {frame : List Level}
  {put : Forest → Workspace} {m : Member} (valid : w.Valid)
  (window : w.Window container present site frame put) (member : m ∈ present)

include valid window member

/-- Numbering anew what a member leaves behind closes the gap. -/
theorem Valid.renumber_without : Ordered.renumber (present.without m) =
    (present.without m).map (Ordered.closeGap m.order) :=
  Ordered.renumber_eq_closeGap (α := Member) (Forest.nodup_map_id (valid.nodup_present window))
    (valid.dense_present window) member

/-- The rows of all that a deletion leaves. -/
theorem Valid.row_mem_without {x : Member} {place : Site} (stands : w.Stands x place)
    (other : x.id ∉ m.ids) : { x.row place.container with
      order := if place.container = container ∧ m.order < x.order then x.order - 1
        else x.order } ∈ (put (Ordered.renumber (present.without m))).rows := by
  have closed := valid.renumber_without window member
  have left : ∀ s ∈ present, s.id ≠ m.id →
      Ordered.closeGap m.order s ∈ Ordered.renumber (present.without m) := by
    intro s listed differs
    rw [closed]
    exact List.mem_map_of_mem (Forest.mem_without.2 ⟨listed, differs⟩)
  rw [(window.put_rows_perm _).mem_iff, List.mem_append]
  by_cases here : place.container = container
  · obtain ⟨owner, ms, owns, listed⟩ := stands
    obtain ⟨rfl, rfl⟩ := owns.ext valid.roots_distinct valid.members_distinct
      (window.owns valid.members_distinct) (here.trans window.container_eq.symm)
    have differs : x.id ≠ m.id := fun same => other (same ▸ Member.mem_ids_iff.2 (.inl rfl))
    refine .inl ?_
    have row := Forest.row_mem_rows (left x listed differs) container
    rw [Member.closeGap_eq] at row
    simp only [here, true_and]
    exact row
  · simp only [here, false_and, if_false]
    rcases List.mem_append.1 (window.rows_perm.mem_iff.1 stands.row_mem) with inside | outside
    · obtain ⟨s, listed, own | below⟩ := Forest.exists_of_mem_rows inside
      · exact absurd (congrArg Row.parent own) here
      · have differs : s.id ≠ m.id := by
          intro same
          have distinct := Forest.nodup_map_id (valid.nodup_present window)
          obtain rfl := List.inj_on_of_nodup_map distinct listed member same
          have among : x.id ∈ Forest.ids s.children := Forest.id_mem_of_mem_rows below
          exact other (s.ids_eq ▸ List.mem_cons_of_mem _ among)
        have stays := left s listed differs
        rw [Member.closeGap_eq] at stays
        exact .inl (Forest.mem_rows_of_mem_children stays below)
    · exact .inr outside

/-- The updates planned for the siblings of a deleted member. -/
theorem Valid.updates_perm_of_without {updates : List Update} (renumbers : Ordered.Renumbers present
      (Ordered.renumber (present.without m)) Member.renumbering updates) :
    updates.Perm
      ((present.filter (m.order < ·.order)).map fun s => s.renumbering (s.order - 1)) := by
  have distinct := Forest.nodup_map_id (valid.nodup_present window)
  rw [valid.renumber_without window member] at renumbers
  have later : (((present.filter (m.order < ·.order)).map
      fun s => s.renumbering (s.order - 1)).map Update.id).Nodup := by
    rw [List.map_map]
    exact distinct.sublist (List.filter_sublist.map Member.id)
  refine (List.perm_ext_iff_of_nodup renumbers.nodup later.of_map).2 fun update => ?_
  rw [renumbers.mem_iff_of_closeGap (α := Member) distinct member, List.mem_map]
  simp only [List.mem_filter, decide_eq_true_eq, and_assoc, eq_comm (a := update)]
  rfl

end

/-- Every member of a valid workspace can be deleted, and the deletion takes all below it along and
closes the gap among its siblings. -/
theorem Valid.delete_cascades (valid : w.Valid) {id : Id} (known : id ∈ w.ids) :
    ∃ m site siblings change w', m.id = id ∧ m ∈ siblings ∧ w.Owns site .interior siblings ∧
      w.delete id = .ok { changes := [change] } ∧
      Rearrangement.carryOut { changes := [change] } w = .ok w' ∧
      w.Cascade w' m site siblings change := by
  obtain ⟨found, located⟩ := Option.isSome_iff_exists.1 (locate?_isSome_iff.2 known)
  obtain ⟨present, site, frame, put, window, member, rfl⟩ :=
    valid.exists_window_of_locate? located
  obtain ⟨patched, after, -⟩ := valid.take_out window member
  have distinct := valid.nodup_present window
  have same : Ordered.SameItems (Ordered.renumber (present.without found.member))
      (present.filter (·.id ≠ found.member.id)) :=
    (Ordered.SameItems.renumber _).trans (.of_perm ((Ordered.sorted_perm present).filter _))
  obtain ⟨updates, renumbers, planned⟩ := Change.plan_renumbered_of_sublist found.container
    found.member.ids distinct same List.filter_sublist
  have split := window.ids_perm_without (Forest.nodup_map_id distinct) member
  have apart := List.nodup_append.1 (split.nodup_iff.1 valid.members_distinct)
  exact ⟨found.member, site, present, _, _, rfl, member, window.owns valid.members_distinct,
    valid.delete_eq_ok window member located rfl, carryOut_single patched, {
      container := window.container_eq.symm
      deleted := rfl
      family := found.member.mem_ids_iff_lists site.container
      once := apart.1
      creates := by rw [planned]
      deletes := by rw [planned]
      updates := by
        rw [planned]
        exact valid.updates_perm_of_without window member renumbers
      gone := by
        intro id inside
        by_contra there
        have listed := locate?_isSome_iff.1 (Option.isSome_iff_ne_none.2 there)
        exact apart.2.2 id inside id listed rfl
      stays := by
        intro x place stands other
        have row := valid.row_mem_without window member stands other
        obtain ⟨n, home, stands', alike⟩ := exists_stands_of_row row
        obtain ⟨same, fields⟩ := Member.shallow_eq_of_row alike
        have named : n.id = x.id := congrArg Row.id alike
        refine ⟨_, named ▸ stands'.locate?_eq after.roots_distinct after.members_distinct, same, ?_⟩
        rw [window.container_eq]
        exact fields }⟩

open Reconciler in
/-- With the folder of `noteTree` goes the note in it, and the note beside it comes first. -/
theorem noteTree_delete_cascades : ∃ change w',
    noteTree.delete { bits := 2 } = .ok { changes := [change] } ∧
      Rearrangement.carryOut { changes := [change] } noteTree = .ok w' ∧
      change.deleted = [{ bits := 2 }, { bits := 3 }] ∧
      change.plan.updates = [{ id := looseNote.member, order := some 1 }] ∧
      w'.locate? { bits := 3 } = none ∧
      ∃ found, w'.locate? looseNote.member = some found ∧
        found.container = looseNote.container ∧ found.member.order = 1 := by
  have known : { bits := 2 } ∈ noteTree.ids := .head _
  obtain ⟨m, site, siblings, change, w', named, listed, owns, computed, carried, cascade⟩ :=
    noteTree_valid.delete_cascades known
  have changes := congrArg Rearrangement.changes
    (Except.ok.inj ((rfl : noteTree.delete { bits := 2 } = _).symm.trans computed))
  obtain rfl : _ = change := List.head_eq_of_cons_eq changes
  have top : noteTree.Owns _ _ _ := .root (.head _)
  obtain rfl := eq_of_id_eq noteTree_valid.members_distinct (owns.mem_members listed)
    (top.mem_members (.head _)) named
  obtain ⟨found, search, place, fields⟩ := cascade.stays _ _ ⟨_, _, top, .tail _ (.head _)⟩
    (by decide)
  have order := congrArg Member.order fields
  rw [← cascade.container] at order
  exact ⟨_, w', computed, carried, rfl, rfl, cascade.gone _ (.tail _ (.head _)), found, search,
    place, order⟩

end Workspace

end Outline

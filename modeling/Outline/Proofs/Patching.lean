import Outline.Proofs.Soundness

/-!
# Patched lists

A patch takes the fields of the listed members from what was computed and the children of those it
knows from the present list (`Outline.Forest.patched_eq_map`).  For a computed list that numbers
known members and newcomers anew, the outcome is that numbering of the members as they are at
present (`Outline.Forest.patched_renumber`), also where the present list has other children than
the one that was computed from (`Outline.Forest.patched_insertAt`).
-/

namespace Outline

namespace Member

/-- The member as a patch of the present list leaves it: with the children that it has there,
under its own path, or as given if it is not there. -/
def settled (m : Member) (present : Forest) : Member :=
  match present.find? (·.id = m.id) with
  | some old => { m with children := Forest.rebased old.children m.path }
  | none => m

@[simp] theorem order_settled (m : Member) (present : Forest) :
    (m.settled present).order = m.order := by
  unfold settled
  split <;> rfl

theorem settled_withOrder (m : Member) (present : Forest) (n : Nat) :
    (Ordered.withOrder m n).settled present = Ordered.withOrder (m.settled present) n := by
  simp only [ordered_withOrder, settled]
  cases present.find? (·.id = m.id) <;> rfl

theorem settled_of_mem {m old : Member} {present : Forest}
    (distinct : (present.map Member.id).Nodup) (member : old ∈ present) (same : old.id = m.id) :
    m.settled present = { m with children := Forest.rebased old.children m.path } := by
  have found : present.find? (·.id = m.id) = some old := by
    rw [← same]
    exact Ordered.find?_id_eq_some (α := Member) distinct member
  rw [settled, found]

theorem settled_of_not_mem {m : Member} {present : Forest}
    (absent : m.id ∉ present.map Member.id) : m.settled present = m := by
  have none : present.find? (·.id = m.id) = none := by
    refine List.find?_eq_none.2 fun x inside same => absent ?_
    exact List.mem_map.2 ⟨x, inside, of_decide_eq_true same⟩
  rw [settled, none]

/-- A member of the present list settles as it is. -/
theorem settled_self {m : Member} {present : Forest} (distinct : (present.map Member.id).Nodup)
    (member : m ∈ present) (consistent : Forest.Consistent m.children m.path) :
    m.settled present = m := by
  rw [settled_of_mem distinct member rfl, consistent, mk_eta]

end Member

namespace Forest

theorem last?_eq_find? {ms : Forest} (distinct : (ms.map Member.id).Nodup) (id : Id) :
    last? ms id = ms.find? (·.id = id) := by
  cases found : ms.find? (·.id = id) with
  | some m =>
      have named : m.id = id := by simpa using List.find?_some found
      have member : m ∈ ms.reverse := List.mem_reverse.2 (List.mem_of_find?_eq_some found)
      have reversed : (ms.reverse.map Member.id).Nodup := by
        rw [List.map_reverse]
        exact List.nodup_reverse.2 distinct
      rw [last?, ← named]
      exact Ordered.find?_id_eq_some (α := Member) reversed member
  | none =>
      rw [last?, List.find?_eq_none]
      intro x inside
      exact List.find?_eq_none.1 found x (List.mem_reverse.1 inside)

/-- A patch without repetitions settles each listed member for itself. -/
theorem patched_eq_map {present after : Forest} (distinct : (present.map Member.id).Nodup)
    (listed : (after.map Member.id).Nodup) :
    patched present after = after.map (·.settled present) := by
  induction after generalizing present with
  | nil => rfl
  | cons m ms ih =>
      rw [List.map_cons, List.nodup_cons] at listed
      have others : ∀ x ∈ ms, x.settled (present.filter (·.id ≠ m.id)) = x.settled present := by
        intro x inside
        have differ : x.id ≠ m.id := fun same => listed.1 (List.mem_map.2 ⟨x, inside, same⟩)
        have search : (present.filter (·.id ≠ m.id)).find? (·.id = x.id) =
            present.find? (·.id = x.id) := by
          rw [List.find?_filter]
          congr 1
          funext y
          by_cases same : y.id = x.id
          · simp [same, differ]
          · simp [same]
        simp only [Member.settled, search]
      rw [patched, last?_eq_find? distinct, List.map_cons]
      cases found : present.find? (·.id = m.id) with
      | some old =>
          have left : ((present.filter (·.id ≠ m.id)).map Member.id).Nodup :=
            distinct.sublist (List.filter_sublist.map _)
          have first : m.settled present =
              { m with children := rebased old.children m.path } := by rw [Member.settled, found]
          rw [first, ← List.map_congr_left others, ← ih left listed.2]
      | none =>
          have first : m.settled present = m := by rw [Member.settled, found]
          rw [first, ← ih distinct listed.2]

/-- A patch with renumbered members is the renumbering of the settled ones. -/
theorem patched_renumber {present list : Forest} (distinct : (present.map Member.id).Nodup)
    (listed : (list.map Member.id).Nodup) :
    patched present (Ordered.renumber list) = Ordered.renumber (list.map (·.settled present)) := by
  have ids : ((Ordered.renumber list).map Member.id).Nodup := by
    have same : (Ordered.renumber list).map Ordered.id = list.map Ordered.id :=
      Ordered.map_id_renumber list
    exact same ▸ listed
  rw [patched_eq_map distinct ids]
  exact Ordered.map_renumber fun m _ n => m.settled_withOrder present n

/-- Members with other children than those of the present list settle as the present ones. -/
theorem map_settled {present before : Forest} (distinct : (present.map Member.id).Nodup)
    (consistent : ∀ m ∈ present, Consistent m.children m.path)
    (fields : before.map Member.shallow = present.map Member.shallow) :
    before.map (·.settled present) = present := by
  have general : ∀ olds news : Forest, olds.map Member.shallow = news.map Member.shallow →
      (∀ m ∈ news, m ∈ present) → olds.map (·.settled present) = news := by
    intro olds
    induction olds with
    | nil =>
        intro news same _
        exact (List.map_eq_nil_iff.1 same.symm).symm
    | cons old olds ih =>
        intro news same inside
        cases news with
        | nil => exact absurd same (by simp)
        | cons new news =>
            rw [List.map_cons, List.map_cons, List.cons.injEq] at same
            have id : new.id = old.id := Member.id_eq_of_shallow same.1.symm
            have path : new.path = old.path := by
              change new.shallow.path = old.shallow.path
              rw [same.1]
            have member := inside new (.head _)
            have children : rebased new.children old.path = new.children :=
              path ▸ consistent new member
            rw [List.map_cons, ih news same.2 fun m later => inside m (.tail _ later),
              Member.settled_of_mem distinct member id, children]
            exact congrArg (· :: news) (Member.eq_of_shallow same.1 rfl)
  exact general before present fields fun _ member => member

/-- Inserting a newcomer next to members computed earlier patches as inserting it next to those
that are there now. -/
theorem patched_insertAt {present before : Forest} {new : Member} {index : Nat}
    (distinct : (present.map Member.id).Nodup)
    (consistent : ∀ m ∈ present, Consistent m.children m.path)
    (fields : before.map Member.shallow = present.map Member.shallow)
    (fresh : new.id ∉ present.map Member.id) :
    patched present (Ordered.insertAt before new index) = Ordered.insertAt present new index := by
  have settles : before.map (·.settled present) = present :=
    map_settled distinct consistent fields
  have sorts : (Ordered.sorted before).map (·.settled present) = Ordered.sorted present := by
    rw [← Ordered.sorted_map (f := fun m : Member => m.settled present), settles]
    intro x _ y _
    simp only [Member.ordered_order, Member.order_settled]
  have ids : before.map Member.id = present.map Member.id := by
    have same : ∀ ms : Forest, ms.map Member.id = (ms.map Member.shallow).map Member.id := by
      intro ms
      rw [List.map_map]
      rfl
    rw [same before, same present, fields]
  have listed : (((Ordered.sorted before).take index ++
      new :: (Ordered.sorted before).drop index).map Member.id).Nodup := by
    have perm : ((Ordered.sorted before).take index ++
        new :: (Ordered.sorted before).drop index).Perm (new :: before) := by
      refine List.perm_middle.trans (.cons _ ?_)
      rw [List.take_append_drop]
      exact Ordered.sorted_perm before
    rw [(perm.map _).nodup_iff, List.map_cons, ids]
    exact List.nodup_cons.2 ⟨fresh, distinct⟩
  rw [Ordered.insertAt_eq, patched_renumber distinct listed, List.map_append, List.map_cons,
    Member.settled_of_not_mem fresh, List.map_take, List.map_drop, sorts]
  rfl

/-- Paths that derive level by level derive throughout. -/
theorem consistent_of_levels {ms : Forest} {site : Site} (owner : Kind)
    (derive : ∀ level ∈ levels ms site owner, ∀ m ∈ level.members,
      m.path = level.site.path.child m.name) : Consistent ms site.path := by
  induction ms using Forest.induct generalizing site owner with
  | nil => exact consistent_nil _
  | cons m ms inner later =>
      rw [levels, List.forall_mem_cons, innerLevels_cons, List.forall_mem_append,
        Member.levels_eq] at derive
      obtain ⟨here, below, after⟩ := derive
      refine consistent_cons.2 ⟨here m.shallow (.head _), inner m.kind below, later owner ?_⟩
      rw [levels, List.forall_mem_cons]
      exact ⟨fun x member => here x (.tail _ member), after⟩

end Forest

namespace Workspace

variable {w : Workspace} {container : Container} {present : Forest} {site : Site}
  {frame : List Level} {put : Forest → Workspace}

/-- The paths below a window of a valid workspace derive from the names above. -/
theorem Valid.consistent (valid : w.Valid)
    (window : w.Window container present site frame put) :
    Forest.Consistent present site.path := by
  apply Forest.consistent_of_levels .interior
  intro level inside
  exact valid.paths level (window.levels.mem_iff.2 (List.mem_append_left _ inside))

theorem Valid.consistent_children (valid : w.Valid)
    (window : w.Window container present site frame put) {m : Member} (member : m ∈ present) :
    m.path = site.path.child m.name ∧ Forest.Consistent m.children m.path := by
  obtain ⟨path, children⟩ := Forest.consistent_iff.1 (valid.consistent window) m member
  exact ⟨path, path ▸ children⟩

theorem Valid.nodup_present (valid : w.Valid)
    (window : w.Window container present site frame put) : (Forest.ids present).Nodup := by
  have perm := w.ids_perm_levels.trans (window.levels.flatMap_right Level.ids)
  have distinct := perm.nodup_iff.1 valid.members_distinct
  rw [List.flatMap_append] at distinct
  rw [(Forest.ids_perm_levels present site .interior).nodup_iff]
  exact distinct.sublist (List.sublist_append_left ..)

/-- A patch of a valid workspace with members of the list and newcomers numbers them as they are. -/
theorem Valid.patched_renumber (valid : w.Valid)
    (window : w.Window container present site frame put) {list : Forest}
    (listed : (list.map Member.id).Nodup)
    (own : ∀ m ∈ list, m ∈ present ∨ m.id ∉ present.map Member.id) :
    Forest.patched present (Ordered.renumber list) = Ordered.renumber list := by
  have distinct := Forest.nodup_map_id (valid.nodup_present window)
  have settles : list.map (·.settled present) = list := by
    refine (List.map_congr_left fun m member => ?_).trans (List.map_id list)
    rcases own m member with inside | absent
    · exact Member.settled_self distinct inside (valid.consistent_children window inside).2
    · exact Member.settled_of_not_mem absent
  rw [Forest.patched_renumber distinct listed, settles]

end Workspace

end Outline

import Outline.Proofs.Operations

/-!
# Workspaces as tables

A workspace whose lists are in ascending order is known by its roots and its rows, in whatever
sequence the rows are kept (`Outline.Workspace.Valid.eq_of_rows`): each container lists the rows
that name it as their parent, by number.
-/

namespace Outline

/-- The member that a row describes, without children. -/
def Row.member (row : Row) : Member where
  id := row.id
  name := row.name
  order := row.order
  kind := row.kind
  path := row.path
  children := []

namespace Forest

theorem shallow_of_mem_level {ms : Forest} {site : Site} {owner : Kind} {level : Level}
    (inside : level ∈ levels ms site owner) : ∀ m ∈ level.members, m.shallow = m := by
  have bare : ∀ ms : Forest, ∀ m ∈ ms.map Member.shallow, m.shallow = m := by
    intro ms
    rw [List.forall_mem_map]
    exact fun m _ => m.shallow_shallow
  rcases List.mem_cons.1 inside with rfl | below
  · exact bare ms
  · obtain ⟨m, -, -, -, -, -, members⟩ := exists_mem_subtrees_of_level below
    rw [members]
    exact bare m.children

/-- Forests with the same members are the same if the lists below them are. -/
theorem eq_of_innerLevels {lists : Container → Forest} {ms ms' : Forest} {site : Site}
    (fields : ms.map Member.shallow = ms'.map Member.shallow)
    (inner : ∀ level ∈ innerLevels ms site, lists level.container = level.members)
    (inner' : ∀ level ∈ innerLevels ms' site, lists level.container = level.members) :
    ms = ms' := by
  induction ms using Forest.induct generalizing ms' site with
  | nil => exact (List.map_eq_nil_iff.1 fields.symm).symm
  | cons m ms below later =>
      cases ms' with
      | nil => exact absurd fields (by simp)
      | cons m' ms' =>
          rw [List.map_cons, List.map_cons, List.cons.injEq] at fields
          have id : m'.id = m.id := (congrArg Member.id fields.1).symm
          have name : m'.name = m.name := (congrArg Member.name fields.1).symm
          rw [innerLevels_cons, Member.levels_eq, levels, List.forall_mem_append,
            List.forall_mem_cons] at inner inner'
          obtain ⟨⟨own, deeper⟩, after⟩ := inner
          obtain ⟨⟨own', deeper'⟩, after'⟩ := inner'
          rw [id, name] at own' deeper'
          have children := below (own.symm.trans own') deeper deeper'
          rw [Member.eq_of_shallow fields.1 children, later fields.2 after after']

end Forest

namespace Workspace

variable {w w' : Workspace}

/-- The rows that name a container as their parent are those of its level. -/
theorem filter_parent_perm (roots : (w.roots.map Root.id).Nodup) (members : w.ids.Nodup)
    {level : Level} (inside : level ∈ w.levels) :
    (w.rows.filter (·.parent = level.container)).Perm level.rows := by
  have containers := nodup_map_container roots members
  obtain ⟨front, back, split⟩ := List.append_of_mem inside
  have others : ∀ l ∈ front ++ back, l.rows.filter (·.parent = level.container) = [] := by
    intro l listed
    apply List.filter_eq_nil_iff.2
    intro row here same
    obtain ⟨m, -, rfl⟩ := List.mem_map.1 here
    have clash : l.container = level.container := of_decide_eq_true same
    have middle : (front ++ level :: back).Perm (level :: (front ++ back)) := List.perm_middle
    have distinct := (middle.map Level.container).nodup_iff.1 (split ▸ containers)
    rw [List.map_cons, List.nodup_cons] at distinct
    exact distinct.1 (clash ▸ List.mem_map_of_mem listed)
  have own : level.rows.filter (·.parent = level.container) = level.rows := by
    apply List.filter_eq_self.2
    intro row here
    obtain ⟨m, -, rfl⟩ := List.mem_map.1 here
    exact decide_eq_true rfl
  refine (w.rows_perm_levels.filter _).trans (.of_eq ?_)
  rw [split, List.filter_flatMap, List.flatMap_append, List.flatMap_cons, own,
    List.flatMap_eq_nil_iff.2 fun l listed => others l (List.mem_append_left _ listed),
    List.flatMap_eq_nil_iff.2 fun l listed => others l (List.mem_append_right _ listed),
    List.nil_append, List.append_nil]

/-- The members that a table lists for a container of the workspace, by number. -/
theorem sorted_filter_parent (roots : (w.roots.map Root.id).Nodup) (members : w.ids.Nodup)
    (ascending : w.Ascending) {table : List Row} (same : table.Perm w.rows) {level : Level}
    (inside : level ∈ w.levels) :
    Ordered.sorted ((table.filter (·.parent = level.container)).map Row.member) =
      level.members := by
  obtain ⟨root, -, listed⟩ := List.mem_flatMap.1 inside
  have bare : level.rows.map Row.member = level.members := by
    rw [Level.rows, List.map_map]
    refine (List.map_congr_left fun m member => ?_).trans (List.map_id _)
    exact Forest.shallow_of_mem_level listed m member
  refine Ordered.sorted_eq_of_perm ?_ ((ascending_iff.1 ascending).2 level inside)
  rw [← bare]
  exact ((same.filter _).trans (filter_parent_perm roots members inside)).map _

/-- Workspaces with the same roots are the same if each container lists the same members in both. -/
theorem eq_of_lists {lists : Container → Forest}
    (roots : w.roots.map Root.shallow = w'.roots.map Root.shallow)
    (first : ∀ level ∈ w.levels, lists level.container = level.members)
    (second : ∀ level ∈ w'.levels, lists level.container = level.members) : w = w' := by
  have general : ∀ rs rs' : List Root, rs.map Root.shallow = rs'.map Root.shallow →
      (∀ level ∈ levels ⟨rs⟩, lists level.container = level.members) →
      (∀ level ∈ levels ⟨rs'⟩, lists level.container = level.members) → rs = rs' := by
    intro rs
    induction rs with
    | nil =>
        intro rs' fields _ _
        exact (List.map_eq_nil_iff.1 fields.symm).symm
    | cons r rs ih =>
        intro rs' fields inner inner'
        cases rs' with
        | nil => exact absurd fields (by simp)
        | cons r' rs' =>
            rw [List.map_cons, List.map_cons, List.cons.injEq] at fields
            have site : r'.site = r.site := by
              change r'.shallow.site = r.shallow.site
              rw [fields.1]
            simp only [levels, List.flatMap_cons, List.forall_mem_append, Forest.levels,
              List.forall_mem_cons] at inner inner'
            rw [site] at inner'
            have members := Forest.eq_of_innerLevels (inner.1.1.symm.trans inner'.1.1)
              inner.1.2 inner'.1.2
            have head : r = r' := by
              obtain ⟨id, name, shape, order, forest⟩ := r
              obtain ⟨id', name', shape', order', forest'⟩ := r'
              simp only [Root.shallow, Root.mk.injEq, and_true] at fields members ⊢
              exact ⟨fields.1.1, fields.1.2.1, fields.1.2.2.1, fields.1.2.2.2, members⟩
            rw [head, ih rs' fields.2 inner.2 inner'.2]
  obtain ⟨rs⟩ := w
  obtain ⟨rs'⟩ := w'
  exact congrArg Workspace.mk (general rs rs' roots first second)

/-- A workspace in ascending order is known by its roots and its rows. -/
theorem Valid.eq_of_rows (valid : w.Valid) (valid' : w'.Valid) (ascending : w.Ascending)
    (ascending' : w'.Ascending) (roots : w.roots.map Root.shallow = w'.roots.map Root.shallow)
    (rows : w.rows.Perm w'.rows) : w = w' :=
  @eq_of_lists w w'
    (fun container => Ordered.sorted ((w.rows.filter (·.parent = container)).map Row.member)) roots
    (fun _ inside =>
      sorted_filter_parent valid.roots_distinct valid.members_distinct ascending (.refl _) inside)
    fun _ inside =>
      sorted_filter_parent valid'.roots_distinct valid'.members_distinct ascending' rows inside

/-- Where each container has one level, its members can be told from the container. -/
theorem exists_lists {levels : List Level} (distinct : (levels.map Level.container).Nodup) :
    ∃ lists : Container → Forest, ∀ level ∈ levels, lists level.container = level.members := by
  refine ⟨fun container =>
    (levels.find? (·.container = container)).elim [] Level.members, fun level inside => ?_⟩
  obtain ⟨other, found⟩ := Option.isSome_iff_exists.1 (List.find?_isSome.2
    ⟨level, inside, decide_eq_true rfl⟩ : (levels.find? (·.container = level.container)).isSome)
  have same : other.container = level.container := by simpa using List.find?_some found
  dsimp only
  rw [found, List.inj_on_of_nodup_map distinct (List.mem_of_find?_eq_some found) inside same]
  rfl

/-- A workspace is known by its roots and its levels, in whatever sequence the levels are kept. -/
theorem Valid.eq_of_levels (valid : w.Valid)
    (roots : w.roots.map Root.shallow = w'.roots.map Root.shallow)
    (levels : w.levels.Perm w'.levels) : w = w' := by
  obtain ⟨lists, found⟩ :=
    exists_lists (nodup_map_container valid.roots_distinct valid.members_distinct)
  exact eq_of_lists roots found fun level inside => found level (levels.mem_iff.2 inside)

end Workspace

end Outline

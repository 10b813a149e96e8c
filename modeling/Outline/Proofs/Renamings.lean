import Outline.Proofs.Outcomes

/-!
# Renamed members

A renamed member keeps its place, and all below it take the paths that follow from the name
(`Outline.Workspace.Valid.outcome_renamed`).
-/

namespace Outline

namespace Forest

variable {ms : Forest} {id : Id} {name : String} {parent : Path}

theorem map_id_renamed : (ms.renamed id name parent).map Member.id = ms.map Member.id := by
  rw [renamed, List.map_map]
  apply List.map_congr_left
  intro m _
  rw [Function.comp_apply]
  by_cases own : m.id = id
  · rw [if_pos own, Member.id_rebased]
  · rw [if_neg own]

theorem map_order_renamed : (ms.renamed id name parent).map Member.order = ms.map Member.order := by
  rw [renamed, List.map_map]
  apply List.map_congr_left
  intro m _
  rw [Function.comp_apply]
  by_cases own : m.id = id
  · rw [if_pos own, Member.order_rebased]
  · rw [if_neg own]

/-- Renaming leaves all members what they are. -/
theorem map_kind_rows_renamed (container : Container) :
    (rows (ms.renamed id name parent) container).map (fun row => (row.id, row.kind)) =
      (rows ms container).map fun row => (row.id, row.kind) := by
  induction ms with
  | nil => rfl
  | cons m ms ih =>
      have first : ((if m.id = id then Member.rebased { m with name := name } parent
          else m).rows container).map (fun row => (row.id, row.kind)) =
          (m.rows container).map fun row => (row.id, row.kind) := by
        by_cases own : m.id = id
        · have whole := map_kind_rows_rebased [{ m with name := name }] parent container container
          rw [rebased, rebased, rows, rows, rows, rows, List.append_nil, List.append_nil] at whole
          rw [if_pos own]
          apply whole.trans
          cases m
          rfl
        · rw [if_neg own]
      rw [renamed, List.map_cons, rows, List.map_append, first, ← renamed, ih, ← List.map_append]
      rfl

theorem ids_renamed : ids (ms.renamed id name parent) = ids ms := by
  have same : ((rows (ms.renamed id name parent) default).map fun row => (row.id, row.kind)).map
      Prod.fst = ((rows ms default).map fun row => (row.id, row.kind)).map Prod.fst :=
    congrArg _ (map_kind_rows_renamed default)
  rwa [List.map_map, List.map_map, show Prod.fst ∘ (fun row : Row => (row.id, row.kind)) = Row.id
    from rfl, map_id_rows, map_id_rows] at same

/-- The levels below a renamed list are below its members, of which one may have been renamed. -/
theorem exists_of_mem_innerLevels_renamed {site : Site} {level : Level}
    (inside : level ∈ innerLevels (ms.renamed id name parent) site) :
    ∃ m ∈ ms, level ∈ m.levels site ∨
      level ∈ (Member.rebased { m with name := name } parent).levels site := by
  rw [innerLevels_eq_flatMap, renamed, List.flatMap_map] at inside
  obtain ⟨m, member, inside⟩ := List.mem_flatMap.1 inside
  by_cases own : m.id = id
  · rw [if_pos own] at inside
    exact ⟨m, member, .inr inside⟩
  · rw [if_neg own] at inside
    exact ⟨m, member, .inl inside⟩

end Forest

namespace Workspace

variable {w : Workspace} {container : Container} {present : Forest} {site : Site}
  {frame : List Level} {put : Forest → Workspace} {id : Id} {name : String}

/-- A patch takes a renamed list over as it is. -/
theorem Valid.patched_renamed (valid : w.Valid)
    (window : w.Window container present site frame put) :
    Forest.patched present (present.renamed id name site.path) =
      present.renamed id name site.path := by
  have distinct := Forest.nodup_map_id (valid.nodup_present window)
  rw [Forest.patched_eq_map distinct (by rwa [Forest.map_id_renamed]), Forest.renamed,
    List.map_map]
  apply List.map_congr_left
  intro m member
  rw [Function.comp_apply]
  by_cases own : m.id = id
  · have known : m.id = (Member.rebased { m with name := name } site.path).id :=
      (Member.id_rebased { m with name := name } site.path).symm
    rw [if_pos own, Member.settled_of_mem distinct member known, Member.path_rebased,
      Member.rebased_eq]
  · rw [if_neg own]
    exact Member.settled_self distinct member (valid.consistent_children window member).2

/-- Another name, unlike the siblings' names, keeps a workspace valid. -/
theorem Window.valid_renamed (window : w.Window container present site frame put)
    (valid : w.Valid)
    (apart : ∀ s ∈ present, s.id ≠ id → Text.lower s.name ≠ Text.lower name) :
    (put (present.renamed id name site.path)).Valid := by
  obtain ⟨dense, names, paths, kinds⟩ := Forest.sound_iff.1 (valid.sound window.level_mem)
  have distinct := Forest.nodup_map_id (valid.nodup_present window)
  refine window.valid_put valid (Forest.sound_iff.2 ⟨?_, ?_, ?_, ?_⟩) ?_ ?_
  · rw [← dense]
    exact Ordered.isDense_congr Forest.map_order_renamed
  · rw [Forest.renamed, List.map_map]
    apply List.pairwise_map.2
    refine List.Pairwise.imp_of_mem ?_
      ((List.pairwise_map.1 names).and (List.pairwise_map.1 distinct))
    rintro a b inA inB ⟨differ, other⟩
    rw [Function.comp_apply, Function.comp_apply]
    by_cases first : a.id = id
    · have second : b.id ≠ id := fun same => other (first.trans same.symm)
      rw [if_pos first, if_neg second, Member.name_rebased]
      exact (apart b inB second).symm
    · rw [if_neg first]
      by_cases second : b.id = id
      · rw [if_pos second, Member.name_rebased]
        exact apart a inA first
      · rwa [if_neg second]
  · rw [Forest.renamed, List.forall_mem_map]
    intro m member
    by_cases own : m.id = id
    · rw [if_pos own, Member.path_rebased, Member.name_rebased]
    · rw [if_neg own]
      exact paths m member
  · rw [Forest.renamed, List.forall_mem_map]
    intro m member
    by_cases own : m.id = id
    · rw [if_pos own, Member.kind_rebased]
      exact kinds m member
    · rw [if_neg own]
      exact kinds m member
  · intro level inside
    obtain ⟨m, member, kept | renamed⟩ := Forest.exists_of_mem_innerLevels_renamed inside
    · exact valid.sound (window.mem_levels member kept)
    · have below : ∀ level ∈ m.levels site, level.Sound :=
        fun _ below => valid.sound (window.mem_levels member below)
      exact Member.sound_rebased name below (fun _ _ accepted => accepted) level renamed
  · rw [Forest.ids_renamed]
    exact window.ids_perm.nodup_iff.1 valid.members_distinct

theorem Window.ascending_renamed (window : w.Window container present site frame put)
    (ascending : w.Ascending) : (put (present.renamed id name site.path)).Ascending := by
  have levels := (ascending_iff.1 ascending).2
  apply window.ascending_put ascending
  · apply List.pairwise_map.1
    rw [Forest.map_order_renamed]
    exact List.pairwise_map.2 (Forest.ascending_shallow.1 (levels _ window.level_mem))
  · intro level inside
    obtain ⟨m, member, kept | renamed⟩ := Forest.exists_of_mem_innerLevels_renamed inside
    · exact levels level (window.mem_levels member kept)
    · have below : ∀ level ∈ m.levels site, level.Ascending :=
        fun level below => levels level (window.mem_levels member below)
      exact Member.ascending_rebased name below level renamed

/-- The rows of a renamed list are all that may differ. -/
theorem Window.accounts_renamed (window : w.Window container present site frame put) :
    Rearrangement.Accounts { changes := [{
      container := container, before := present, after := present.renamed id name site.path }] }
      w (put (present.renamed id name site.path))
      (Forest.rows (present.renamed id name site.path) container) []
      (frame.flatMap Level.rows) where
  known := by
    intro change inside row here
    obtain rfl := List.mem_singleton.1 inside
    rw [Change.rowsBefore, List.flatMap_nil, List.append_nil] at here
    exact window.mem_rows here
  listed := by
    intro change inside row here _
    obtain rfl := List.mem_singleton.1 inside
    rw [Change.rowsBefore, List.flatMap_nil, List.append_nil, Forest.map_id_rows]
    exact Forest.ids_renamed ▸ Forest.id_mem_of_mem_rows here
  written := by
    rw [List.flatMap_cons, List.flatMap_nil]
    exact .refl _
  stale := fun _ none => absurd none List.not_mem_nil
  after := window.put_rows_perm _
  frame := fun _ outside => window.rows_perm.mem_iff.2 (List.mem_append_right _ outside)
  kinds := by
    intro row inside _
    have pair : (row.id, row.kind) ∈ (Forest.rows present container).map
        fun row => (row.id, row.kind) := by
      rw [← Forest.map_kind_rows_renamed]
      exact List.mem_map_of_mem inside
    obtain ⟨old, here, same⟩ := List.mem_map.1 pair
    exact ⟨old, window.mem_rows here, congrArg Prod.fst same, congrArg Prod.snd same⟩
  parents := by
    intro row inside
    obtain ⟨root, node⟩ := holds_of_members? window.members
    rcases Forest.parent_of_mem_rows inside with own | ⟨owner, listed, same⟩
    · rw [own]
      exact ⟨root, node⟩
    · rw [same]
      refine ⟨root, fun node here => ?_⟩
      obtain rfl := Option.some.inj here
      rw [Forest.ids_renamed] at listed
      exact window.ids_perm.mem_iff.2 (List.mem_append_left _ listed)
  deleted := by
    have ids : (put (present.renamed id name site.path)).ids.Perm w.ids := by
      apply (window.put_ids_perm _).trans
      rw [Forest.ids_renamed]
      exact window.ids_perm.symm
    exact nil_perm_filter_not_mem ids
  alone := .inl (Nat.le_refl 1)

/-- A renaming that repeats no sibling's name has an outcome. -/
theorem Valid.outcome_renamed (valid : w.Valid)
    (window : w.Window container present site frame put)
    (apart : ∀ s ∈ present, s.id ≠ id → Text.lower s.name ≠ Text.lower name) :
    w.Outcome { changes := [{
      container := container, before := present, after := present.renamed id name site.path }] }
      (put (present.renamed id name site.path)) where
  resolved := resolve_eq_ok (List.forall_mem_singleton.2 (by rw [window.members]; rfl))
    fun _ none => by cases none
  carried := carryOut_single (by rw [window.patch, valid.patched_renamed window])
  valid := window.valid_renamed valid apart
  ascending := window.ascending_renamed
  accounts := ⟨_, _, _, window.accounts_renamed⟩
  same_roots _ := window.put_roots _
  moved_roots _ none := by cases none
  root_ids := by rw [map_roots_eq (f := Root.id) (fun _ => rfl) (window.put_roots _)]
  known_roots := known_of_map_shallow (window.put_roots _)

end Workspace

end Outline

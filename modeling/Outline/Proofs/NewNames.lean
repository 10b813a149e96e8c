import Mathlib.Data.List.Basic
import Outline.Proofs.Checks
import Outline.Proofs.Deltas
import Outline.Proofs.MovedPaths

/-!
# New names

A member of another name has another path, and so has all below it: where the paths have had the
name they have the new one (`Outline.Forest.rows_renamed`).  This is planned, name for name and path
for path, and it is all that happens (`Outline.Workspace.Valid.rename_repaths`).
-/

namespace Outline

namespace Path

variable {parent path : Path} {old : String}

theorem child_renamedAt (parent : Path) (old name : String) :
    (parent.child old).renamedAt parent.segments.length name = parent.child name := by
  rw [renamedAt, child, child, List.set_append_right _ _ (Nat.le_refl _), Nat.sub_self]
  rfl

theorem length_child (parent : Path) (name : String) :
    (parent.child name).segments.length = parent.segments.length + 1 := by
  rw [child, List.length_append]
  rfl

section

variable (begins : (parent.child old).segments <+: path.segments)

include begins

/-- What has been below one child has its name at the depth of the child. -/
theorem getElem?_of_begins : path.segments[parent.segments.length]? = some old := by
  obtain ⟨rest, whole⟩ := begins
  rw [← whole, child, List.append_assoc, List.getElem?_append_right (Nat.le_refl _), Nat.sub_self]
  rfl

/-- What is below one child is below the other one if the name is replaced at its depth. -/
theorem renamedAt_eq_moved (name : String) : path.renamedAt parent.segments.length name =
    path.moved (parent.child old) (parent.child name) := by
  have deep : parent.segments.length < (parent.child old).segments.length := by
    rw [length_child]
    exact Nat.lt_succ_self _
  rw [← child_renamedAt parent old name, moved_renamedAt begins deep]

theorem renamedAt_eq_self_iff {name : String} :
    path.renamedAt parent.segments.length name = path ↔ name = old := by
  rw [renamedAt_eq_moved begins, moved_eq_self_iff begins]
  constructor
  · intro same
    have names := congrArg Path.name? same
    rw [name?_child, name?_child] at names
    exact Option.some.inj names
  · intro same
    rw [same]

end

end Path

/-- The row of a member once `m`, which stands at the depth, has the name. -/
def Row.underName (row : Row) (m : Member) (depth : Nat) (name : String) : Row :=
  if row.id ∈ m.ids then
    { row with
      name := if row.id = m.id then name else row.name
      path := row.path.renamedAt depth name }
  else row

/-- The update of a member at the depth that is to have the name. -/
def Member.naming (m : Member) (depth : Nat) (name : String) : Update where
  id := m.id
  name := some name
  path := some (m.path.renamedAt depth name)

/-- The update of a member below one at the depth that is to have the name. -/
def Member.repathing (m : Member) (depth : Nat) (name : String) : Update where
  id := m.id
  path := some (m.path.renamedAt depth name)

/-- The update of a row of a table that gets another path, and perhaps another name. -/
theorem Row.updateFrom?_of_path {table : List Row} {row : Row}
    (known : rowOf? table row.id = some row) {path : Path} (differs : row.path ≠ path)
    (name : String) : updateFrom? table { row with name, path } =
      some {
        id := row.id
        name := if row.name = name then none else some name
        path := some path } := by
  have filled : (row.updateTo { row with name, path }).isEmpty = false :=
    Row.isEmpty_updateTo.2 (.inr (.inr (.inl differs)))
  rw [updateFrom?_of_rowOf? known (by rfl), filled]
  simp only [updateTo, if_true, if_neg differs]
  rfl

namespace Member

theorem self_mem_ids (m : Member) : m.id ∈ m.ids :=
  mem_ids_iff.2 (.inl rfl)

/-- A member of a path below `parent`, and with paths below it that derive from its own. -/
structure Rests (m : Member) (parent : Path) : Prop where
  path : m.path = parent.child m.name
  below : Forest.Consistent m.children m.path
  distinct : m.ids.Nodup

namespace Rests

variable {m : Member} {parent : Path} (rests : m.Rests parent) {owner : Container} {row : Row}

include rests

theorem not_mem_ids_children : m.id ∉ Forest.ids m.children :=
  (List.nodup_cons.1 (m.ids_eq ▸ rests.distinct)).1

theorem begins_below (inside : row ∈ Forest.rows m.children owner) :
    (parent.child m.name).segments <+: row.path.segments :=
  rests.path ▸ Forest.path_begins rests.below inside

/-- The paths of a member and of all below it have its name at its depth. -/
theorem getElem?_path {x : Member} (inside : x ∈ m.subtree) :
    x.path.segments[parent.segments.length]? = some m.name := by
  rw [subtree_eq] at inside
  rcases List.mem_cons.1 inside with rfl | below
  · exact Path.getElem?_of_begins (rests.path ▸ List.prefix_refl _)
  · have same := Forest.map_rows_eq (f := Row.path) (fun _ _ => rfl) m.children default
    obtain ⟨row, listed, path⟩ : ∃ row ∈ Forest.rows m.children default, row.path = x.path :=
      List.mem_map.1 (same ▸ List.mem_map_of_mem below)
    rw [← path]
    exact Path.getElem?_of_begins (rests.begins_below listed)

/-- The rows of what is below a member that has another name. -/
theorem underName_below (inside : row ∈ Forest.rows m.children owner) (name : String) :
    row.underName m parent.segments.length name =
      { row with path := row.path.renamedAt parent.segments.length name } := by
  have known := Forest.id_mem_of_mem_rows inside
  have other : row.id ≠ m.id := fun same => rests.not_mem_ids_children (same ▸ known)
  rw [Row.underName, if_pos (m.ids_eq ▸ List.mem_cons_of_mem _ known), if_neg other]

theorem underName_own (owner : Container) (name : String) :
    (m.row owner).underName m parent.segments.length name =
      { m.row owner with name, path := parent.child name } := by
  have own : (m.row owner).id ∈ m.ids := m.self_mem_ids
  have renamed : (m.row owner).path.renamedAt parent.segments.length name = parent.child name :=
    (congrArg (Path.renamedAt · _ name) rests.path).trans (Path.child_renamedAt ..)
  rw [Row.underName, if_pos own, if_pos (by rfl), renamed]

/-- The rows of a member that has another name. -/
theorem rows_renamed (owner : Container) (name : String) :
    (Member.rebased { m with name := name } parent).rows owner =
      (m.rows owner).map (·.underName m parent.segments.length name) := by
  have moved := Forest.rows_rebased_moved rests.below (Nat.le_refl _) (parent.child name) owner.root
    owner.root (some m.id)
  rw [Path.moved_self] at moved
  rw [rows_eq, rows_eq m, List.map_cons, rests.underName_own, children_rebased, id_rebased,
    rebased_eq]
  refine congrArg₂ List.cons rfl (moved.trans (List.map_congr_left fun row inside => ?_))
  rw [rests.underName_below inside, Path.renamedAt_eq_moved (rests.begins_below inside),
    ← rests.path, Row.carried, ← Forest.root_of_mem_rows inside]

/-- The updates that give a member another name, and those below it the paths that follow. -/
theorem filterMap_updateFrom? {table : List Row} {name : String} (other : name ≠ m.name)
    (known : ∀ row ∈ m.rows owner, rowOf? table row.id = some row) :
    (m.rows owner).filterMap (fun row =>
      (row.underName m parent.segments.length name).updateFrom? table) =
        m.naming parent.segments.length name ::
          (Forest.subtrees m.children).map (·.repathing parent.segments.length name) := by
  rw [rows_eq] at known ⊢
  obtain ⟨own, below⟩ := List.forall_mem_cons.1 known
  have moved : m.path ≠ parent.child name := by
    intro same
    have names := congrArg Path.name? (rests.path.symm.trans same)
    rw [Path.name?_child, Path.name?_child] at names
    exact other (Option.some.inj names).symm
  have first : ((m.row owner).underName m parent.segments.length name).updateFrom? table =
      some (m.naming parent.segments.length name) := by
    have renamed : m.path.renamedAt parent.segments.length name = parent.child name := by
      rw [rests.path, Path.child_renamedAt]
    have named : (m.row owner).name ≠ name := other.symm
    rw [rests.underName_own, Row.updateFrom?_of_path own moved, if_neg named, naming, renamed]
    rfl
  have later : ∀ row ∈ Forest.rows m.children (.ofNode owner.root m.id),
      (row.underName m parent.segments.length name).updateFrom? table =
        some { id := row.id, path := some (row.path.renamedAt parent.segments.length name) } := by
    intro row inside
    have path : row.path ≠ row.path.renamedAt parent.segments.length name := fun same =>
      other ((Path.renamedAt_eq_self_iff (rests.begins_below inside)).1 same.symm)
    have brought := Row.updateFrom?_of_path (below row inside) path row.name
    rwa [if_pos rfl, ← rests.underName_below inside] at brought
  simp only [List.filterMap_cons, first]
  rw [List.filterMap_congr later]
  refine congrArg _ ((congrFun List.filterMap_eq_map _).trans ?_)
  exact Forest.map_rows_eq (fun _ _ => rfl) m.children _

end Rests

end Member

namespace Forest

variable {ms : Forest} {parent : Path} (consistent : Consistent ms parent)
  (distinct : (ids ms).Nodup) {m : Member} (member : m ∈ ms)

include distinct member in
/-- A list around one of its members, which is apart from all the others. -/
theorem exists_renamed : ∃ front back, ms = front ++ m :: back ∧
    (∀ id ∈ ids front ++ ids back, id ∉ m.ids) ∧ ∀ name path, ms.renamed m.id name path =
      front ++ Member.rebased { m with name := name } path :: back := by
  obtain ⟨front, back, rfl⟩ := List.append_of_mem member
  rw [(ids_perm List.perm_middle).nodup_iff, ids_cons_eq, ids_append] at distinct
  have apart : ∀ id ∈ ids front ++ ids back, id ∉ m.ids := fun id inside own =>
    (List.nodup_append.1 distinct).2.2 id own id inside rfl
  refine ⟨front, back, rfl, apart, fun name path => ?_⟩
  have stays : ∀ part : Forest, ids part ⊆ ids front ++ ids back →
      part.renamed m.id name path = part := by
    intro part within
    refine (List.map_congr_left fun n inside => if_neg fun same => ?_).trans (List.map_id _)
    exact apart n.id (within (id_mem_ids inside)) (same ▸ m.self_mem_ids)
  have before := stays front (List.subset_append_left ..)
  have after := stays back (List.subset_append_right ..)
  rw [renamed] at before after
  rw [renamed, List.map_append, List.map_cons, if_pos rfl, before, after]

include consistent distinct member in
theorem rests_of_mem : m.Rests parent := by
  obtain ⟨path, below⟩ := consistent_iff.1 consistent m member
  exact ⟨path, path ▸ below, nodup_ids_of_mem distinct member⟩

include consistent distinct member

/-- A member that gets the name that it has stays as it is. -/
theorem renamed_self : ms.renamed m.id m.name parent = ms := by
  obtain ⟨path, below, -⟩ := rests_of_mem consistent distinct member
  obtain ⟨front, back, rfl, -, renamed⟩ := exists_renamed distinct member
  have same : m.rebased parent = m := by
    rw [Member.rebased_eq, ← path, below, Member.mk_eta]
  rw [renamed, Member.mk_eta, same]

/-- The rows of a list of which one member has another name. -/
theorem rows_renamed (owner : Container) (name : String) :
    rows (ms.renamed m.id name parent) owner =
      (rows ms owner).map (·.underName m parent.segments.length name) := by
  have rests := rests_of_mem consistent distinct member
  obtain ⟨front, back, rfl, apart, renamed⟩ := exists_renamed distinct member
  have stays : ∀ part : Forest, ids part ⊆ ids front ++ ids back →
      (rows part owner).map (·.underName m parent.segments.length name) = rows part owner := by
    intro part within
    refine (List.map_congr_left fun row inside => ?_).trans (List.map_id _)
    exact if_neg (apart row.id (within (id_mem_of_mem_rows inside)))
  rw [renamed, rows_append, rows_append, rows, rows, List.map_append, List.map_append,
    rests.rows_renamed, stays front (List.subset_append_left ..),
    stays back (List.subset_append_right ..)]

/-- What is planned for a list of which one member has another name. -/
theorem filterMap_rows_renamed (owner : Container) {name : String} (other : name ≠ m.name) :
    (rows (ms.renamed m.id name parent) owner).filterMap (Row.updateFrom? (rows ms owner)) =
      m.naming parent.segments.length name ::
        (subtrees m.children).map (·.repathing parent.segments.length name) := by
  have rests := rests_of_mem consistent distinct member
  have unique := row_ext distinct owner
  have idle : ∀ part : Forest, rows part owner ⊆ rows ms owner →
      (rows part owner).filterMap (Row.updateFrom? (rows ms owner)) = [] := fun part within =>
    List.filterMap_eq_nil_iff.2 fun row inside =>
      Row.updateFrom?_eq_none_of_mem unique (within inside)
  obtain ⟨front, back, split, -, renamed⟩ := exists_renamed distinct member
  have parts : rows ms owner = rows front owner ++ (m.rows owner ++ rows back owner) := by
    rw [split, rows_append, rows]
  have within : m.rows owner ⊆ rows ms owner := by
    rw [parts]
    exact fun _ inside => List.mem_append_right _ (List.mem_append_left _ inside)
  have own := rests.filterMap_updateFrom? other fun row inside =>
    rowOf?_eq_some_of_mem unique (within inside)
  rw [renamed, rows_append, rows, List.filterMap_append, List.filterMap_append, rests.rows_renamed,
    List.filterMap_map, idle front, idle back, List.nil_append, List.append_nil]
  · exact own
  · rw [parts]
    exact fun _ inside => List.mem_append_right _ (List.mem_append_right _ inside)
  · rw [parts]
    exact List.subset_append_left ..

/-- What is planned for a list of which one member has another name, if it is another. -/
theorem plan_renamed (container : Container) (name : String) :
    Change.plan { container, before := ms, after := ms.renamed m.id name parent } = {
      container
      updates :=
        if name = m.name then []
        else m.naming parent.segments.length name ::
          (subtrees m.children).map (·.repathing parent.segments.length name) } := by
  have unique := row_ext distinct container
  have before : Change.rowsBefore {
      container, before := ms, after := ms.renamed m.id name parent } = rows ms container :=
    List.append_nil _
  have creates : (rows (ms.renamed m.id name parent) container).filter
      (fun row => (rowOf? (rows ms container) row.id).isNone) = [] := by
    refine List.filter_eq_nil_iff.2 fun row inside => ?_
    rw [rowOf?_isNone_iff, map_id_rows, ← ids_renamed]
    exact not_not_intro (id_mem_of_mem_rows inside)
  have updates : (rows (ms.renamed m.id name parent) container).filterMap
      (Row.updateFrom? (rows ms container)) = if name = m.name then []
        else m.naming parent.segments.length name ::
          (subtrees m.children).map (·.repathing parent.segments.length name) := by
    split
    next same =>
      rw [same, renamed_self consistent distinct member]
      exact List.filterMap_eq_nil_iff.2 fun row => Row.updateFrom?_eq_none_of_mem unique
    next other => exact filterMap_rows_renamed consistent distinct member container other
  rw [← before] at creates updates
  exact congrArg₂ (fun c u => Batch.mk container c u []) creates updates

end Forest

namespace Workspace

/-- What is planned and left where the member found gets the name. -/
structure Renames (w w' : Workspace) (found : Located) (name : String) (change : Change) :
    Prop where
  container : change.container = found.container
  /-- Nothing is planned just if the name is the old one, letter for letter. -/
  idle : change.plan.isEmpty = true ↔ name = found.member.name
  /-- Else the member has another name and path, and each member below it another path. -/
  updates : name ≠ found.member.name → change.plan.updates =
    found.member.naming found.depth name ::
      (Forest.subtrees found.member.children).map (·.repathing found.depth name)
  once : (change.plan.updates.map Update.id).Nodup
  creates : change.plan.creates = []
  deletes : change.plan.deletes = []
  /-- All the paths have had the old name at the depth of the member. -/
  named : ∀ x ∈ found.member.subtree,
    x.path.segments[found.depth]? = some found.member.name
  roots : w'.roots.map Root.shallow = w.roots.map Root.shallow
  ids : w'.ids.Perm w.ids
  /-- What has been below the member is where it was, with the path that is planned. -/
  inside : ∀ x place, w.Stands x place → x.id ∈ found.member.ids →
    ∃ n there, w'.Stands n there ∧ there.container = place.container ∧
      n.shallow = { x.shallow with
        name := if x.id = found.member.id then name else x.name
        path := x.path.renamedAt found.depth name }
  /-- All others are where they were and as they were. -/
  outside : ∀ x place, w.Stands x place → x.id ∉ found.member.ids →
    ∃ n, w'.Stands n place ∧ n.shallow = x.shallow ∧
      ((∀ id ∈ x.ids, id ∉ found.member.ids) → n = x)

/-- A member is known by its own fields and the levels below it. -/
theorem eq_of_member_levels {w : Workspace} (roots : (w.roots.map Root.id).Nodup)
    (members : w.ids.Nodup) {x y : Member} (fields : x.shallow = y.shallow) {site : Site}
    (first : ∀ level ∈ x.levels site, level ∈ w.levels)
    (second : ∀ level ∈ y.levels site, level ∈ w.levels) : x = y := by
  obtain ⟨lists, told⟩ := exists_lists (nodup_map_container roots members)
  have same : [x] = [y] := Forest.eq_of_innerLevels (congrArg (fun m => [m]) fields)
    (fun level inside => told level (first level (Forest.innerLevels_singleton x site ▸ inside)))
    fun level inside => told level (second level (Forest.innerLevels_singleton y site ▸ inside))
  exact List.head_eq_of_cons_eq same

/-- What is below a member of a list is among the levels. -/
theorem Owns.mem_levels_of_mem {w : Workspace} {site : Site} {owner : Kind} {ms : Forest}
    (owns : w.Owns site owner ms) {m : Member} (listed : m ∈ ms) {level : Level}
    (inside : level ∈ m.levels site) : level ∈ w.levels :=
  (owns.member listed).mem_levels (m.levels_eq site ▸ inside)

section

variable {w : Workspace} {container : Container} {present : Forest} {site : Site}
  {frame : List Level} {put : Forest → Workspace}
  (window : w.Window container present site frame put) (distinct : (Forest.ids present).Nodup)
  {m : Member} (member : m ∈ present)

include window distinct member

omit distinct member in
/-- The rows of a workspace of which one member has another name. -/
theorem Window.rows_perm_renamed (valid : w.Valid) (member : m ∈ present) (name : String) :
    (put (present.renamed m.id name site.path)).rows.Perm
      (w.rows.map (·.underName m site.path.segments.length name)) := by
  have distinct := valid.nodup_present window
  have elsewhere : (frame.flatMap Level.rows).map
      (·.underName m site.path.segments.length name) = frame.flatMap Level.rows := by
    have apart : ∀ row ∈ frame.flatMap Level.rows, row.id ∉ m.ids := by
      intro row outside own
      obtain ⟨level, listed, inside⟩ := List.mem_flatMap.1 outside
      obtain ⟨n, there, rfl⟩ := List.mem_map.1 inside
      have split := window.ids_perm.nodup_iff.1 valid.members_distinct
      refine (List.nodup_append.1 split).2.2 n.id ?_ n.id ?_ rfl
      · exact Forest.ids_subset_of_mem (Forest.mem_subtrees_of_mem member) own
      · exact List.mem_flatMap.2 ⟨level, listed, List.mem_map_of_mem there⟩
    exact (List.map_congr_left fun row outside => if_neg (apart row outside)).trans (List.map_id _)
  refine (window.put_rows_perm _).trans (.symm ((window.rows_perm.map _).trans (.of_eq ?_)))
  rw [List.map_append, elsewhere, Forest.rows_renamed (valid.consistent window) distinct member]

/-- What is listed neither beside a renamed member nor below it stays as it is. -/
theorem Window.mem_levels_renamed {level : Level} (inside : level ∈ w.levels) (name : String) :
    level = site.level present ∨ level ∈ m.levels site ∨
      level ∈ (put (present.renamed m.id name site.path)).levels := by
  rcases List.mem_append.1 (window.levels.mem_iff.1 inside) with here | outside
  · rcases List.mem_cons.1 here with rfl | below
    · exact .inl rfl
    · rw [Forest.innerLevels_eq_flatMap] at below
      obtain ⟨s, listed, below⟩ := List.mem_flatMap.1 below
      refine .inr ?_
      by_cases own : s.id = m.id
      · obtain rfl := List.inj_on_of_nodup_map (Forest.nodup_map_id distinct) listed member own
        exact .inl below
      · have stays : s ∈ present.renamed m.id name site.path :=
          List.mem_map.2 ⟨s, listed, if_neg own⟩
        refine .inr ((window.put_levels _).mem_iff.2 (List.mem_append_left _ (.tail _ ?_)))
        rw [Forest.innerLevels_eq_flatMap]
        exact List.mem_flatMap.2 ⟨s, stays, below⟩
  · exact .inr (.inr ((window.put_levels _).mem_iff.2 (List.mem_append_right _ outside)))

/-- A member that is not below a renamed one is where it was and has the fields that it had. -/
theorem Window.exists_stands_of_renamed {x : Member} {place : Site} (stands : w.Stands x place)
    (other : x.id ∉ m.ids) (name : String) :
    ∃ n, (put (present.renamed m.id name site.path)).Stands n place ∧ n.shallow = x.shallow := by
  obtain ⟨owner, ms, owns, listed⟩ := stands
  have shown : x.shallow ∈ ms.map Member.shallow := List.mem_map_of_mem listed
  have level : ∃ level ∈ (put (present.renamed m.id name site.path)).levels,
      level.site = place ∧ x.shallow ∈ level.members := by
    rcases window.mem_levels_renamed distinct member owns.level_mem name with same | below | kept
    · have members : ms.map Member.shallow = present.map Member.shallow :=
        congrArg Level.members same
      obtain ⟨s, beside, fields⟩ := List.mem_map.1 (members ▸ shown)
      have differs : s.id ≠ m.id := fun own =>
        other ((Member.id_eq_of_shallow fields).symm.trans own ▸ m.self_mem_ids)
      have stays : s ∈ present.renamed m.id name site.path :=
        List.mem_map.2 ⟨s, beside, if_neg differs⟩
      exact ⟨_, (window.put_levels _).mem_iff.2 (.head _), (congrArg Level.site same).symm,
        fields ▸ List.mem_map_of_mem stays⟩
    · have among : x.id ∈ (m.levels site).flatMap Level.ids :=
        List.mem_flatMap.2 ⟨_, below, List.mem_map.2 ⟨x.shallow, shown, rfl⟩⟩
      have inside := (m.ids_perm_levels site).mem_iff.2 among
      exact absurd (m.ids_eq ▸ List.mem_cons_of_mem _ inside) other
    · exact ⟨_, kept, rfl, shown⟩
  obtain ⟨level, inside, rfl, shown⟩ := level
  obtain ⟨ns, owns', same⟩ := exists_owns_of_level inside
  obtain ⟨n, listed', fields⟩ := List.mem_map.1 (same ▸ shown)
  exact ⟨n, ⟨level.owner, ns, owns', listed'⟩, fields⟩

/-- What is below a member to which a renamed one is not related stays as it is. -/
theorem Window.mem_levels_of_apart {x : Member} {place : Site} (stands : w.Stands x place)
    (apart : ∀ id ∈ x.ids, id ∉ m.ids) (name : String) :
    ∀ level ∈ x.levels place, level ∈ (put (present.renamed m.id name site.path)).levels := by
  obtain ⟨owner, ms, owns, listed⟩ := stands
  intro level below
  have inside := owns.mem_levels_of_mem listed below
  rcases window.mem_levels_renamed distinct member inside name with same | among | kept
  · have shown : m.id ∈ (x.levels place).flatMap Level.ids := by
      refine List.mem_flatMap.2 ⟨level, below, ?_⟩
      rw [same, Level.ids, List.map_map]
      exact List.mem_map.2 ⟨m, member, rfl⟩
    have own := (x.ids_perm_levels place).mem_iff.2 shown
    exact absurd m.self_mem_ids (apart m.id (x.ids_eq ▸ List.mem_cons_of_mem _ own))
  · obtain ⟨node, inX, first⟩ := Member.container_of_mem_levels below
    obtain ⟨node', inM, second⟩ := Member.container_of_mem_levels among
    have nodes := congrArg Container.node (first.symm.trans second)
    exact absurd (Option.some.inj nodes ▸ inM) (apart node inX)
  · exact kept

end

variable {w : Workspace}

/-- Every member of a valid workspace can have another name.  Only its own name and path are
updated, and the paths of those below it, in which the old name gives way to the new one. -/
theorem Valid.rename_repaths (valid : w.Valid) {id : Id} (known : id ∈ w.ids) (name : String) :
    ∃ found change w', w.locate? id = some found ∧ w.rename id name = .ok { changes := [change] } ∧
      Rearrangement.carryOut { changes := [change] } w = .ok w' ∧
      w.Renames w' found name change := by
  obtain ⟨found, located⟩ := Option.isSome_iff_exists.1 (locate?_isSome_iff.2 known)
  obtain ⟨present, site, frame, put, window, member, rfl⟩ :=
    valid.exists_window_of_locate? located
  have distinct := valid.nodup_present window
  have consistent := valid.consistent window
  have owns := window.owns valid.members_distinct
  have stands : w.Stands found.member site := ⟨_, _, owns, member⟩
  obtain ⟨m, container, depth⟩ := found
  obtain ⟨rfl, rfl⟩ : container = site.container ∧ depth = site.depth := by
    have search := stands.locate?_eq valid.roots_distinct valid.members_distinct
    rw [located, Option.some.injEq, Located.mk.injEq] at search
    exact search.2
  have deep := owns.length_path
  have rests := Forest.rests_of_mem consistent distinct member
  refine ⟨⟨m, site.container, site.depth⟩, _, _, located,
    valid.rename_eq_ok window located rfl name, valid.carryOut_renamed window, ?_⟩
  dsimp only at member rests
  have planned := Forest.plan_renamed consistent distinct member site.container name
  have rows := window.rows_perm_renamed valid member name
  rw [deep] at planned rows
  have ids : (put (present.renamed m.id name site.path)).ids.Perm w.ids := by
    refine (window.put_ids_perm _).trans (.trans (.of_eq ?_) window.ids_perm.symm)
    rw [Forest.ids_renamed]
  have members := ids.nodup_iff.2 valid.members_distinct
  exact {
    container := rfl
    idle := by
      rw [planned]
      split
      next same => exact iff_of_true rfl same
      next other => exact iff_of_false Bool.false_ne_true other
    updates := fun other => by rw [planned, if_neg other]
    once := by
      refine (Change.updates_sublist _).nodup ?_
      rw [Forest.ids_renamed]
      exact distinct
    creates := by rw [planned]
    deletes := rfl
    named := fun x inside => deep ▸ rests.getElem?_path inside
    roots := window.put_roots _
    ids := ids
    inside := by
      intro x place stands own
      have row := rows.mem_iff.2 (List.mem_map_of_mem stands.row_mem)
      obtain ⟨n, there, stands', same⟩ := exists_stands_of_row row
      have renamed : (x.row place.container).id ∈ m.ids := own
      rw [Row.underName, if_pos renamed] at same
      exact ⟨n, there, stands', congrArg Row.parent same, congrArg Row.member same⟩
    outside := by
      intro x place stands other
      obtain ⟨n, stands', fields⟩ :=
        window.exists_stands_of_renamed distinct member stands other name
      refine ⟨n, stands', fields, fun apart => ?_⟩
      have roots : ((put (present.renamed m.id name site.path)).roots.map Root.id).Nodup := by
        rw [map_roots_eq (fun _ => rfl) (window.put_roots _)]
        exact valid.roots_distinct
      obtain ⟨owner, ns, owns', listed⟩ := id stands'
      exact eq_of_member_levels roots members fields
        (fun level inside => owns'.mem_levels_of_mem listed inside)
        (window.mem_levels_of_apart distinct member stands apart name) }

open Reconciler in
/-- With another name the folder of `noteTree` has another path, and so has the note in it; the note
beside it stays where it is. -/
theorem noteTree_rename_repaths : ∃ change w',
    noteTree.rename { bits := 2 } "ideas" = .ok { changes := [change] } ∧
      Rearrangement.carryOut { changes := [change] } noteTree = .ok w' ∧
      change.plan.updates = [
        { id := { bits := 2 }, name := some "ideas", path := some ⟨["ideas"]⟩ },
        { id := { bits := 3 }, path := some ⟨["ideas", "plan"]⟩ }] ∧
      ∃ note site, w'.Stands note site ∧ site.container = looseNote.container ∧
        note.shallow = ⟨{ bits := 4 }, "todo", 2, .leaf, ⟨["todo"]⟩, []⟩ := by
  have known : { bits := 2 } ∈ noteTree.ids := .head _
  obtain ⟨found, change, w', located, computed, carried, renames⟩ :=
    noteTree_valid.rename_repaths known "ideas"
  obtain rfl := Option.some.inj ((rfl : noteTree.locate? { bits := 2 } = _).symm.trans located)
  have top : noteTree.Owns _ _ _ := .root (.head _)
  obtain ⟨note, stands, fields, -⟩ := renames.outside _ _ ⟨_, _, top, .tail _ (.head _)⟩ (by decide)
  exact ⟨change, w', computed, carried, renames.updates (by decide), note, _, stands, rfl, fields⟩

end Workspace

end Outline

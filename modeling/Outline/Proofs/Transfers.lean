import Outline.Proofs.Outcomes
import Outline.Proofs.RootOrder

/-!
# Transferred members and reordered roots

The outcomes of the moves that touch more than one list of members, or none: a member goes to
another container (`Outline.Workspace.Valid.outcome_transfer`), or a root next to another root
(`Outline.Workspace.Valid.outcome_reordered`).
-/

namespace Outline

theorem Level.rows_level (site : Site) (ms : Forest) :
    (site.level ms).rows = ms.map (·.row site.container) := by
  rw [rows, List.map_map]
  rfl

theorem Level.ids_level (site : Site) (ms : Forest) : (site.level ms).ids = ms.map Member.id := by
  rw [ids, List.map_map]
  rfl

namespace Member

variable (m : Member) (site : Site)

theorem rows_perm_levels : (Forest.rows m.children (.ofNode site.container.root m.id)).Perm
    ((m.levels site).flatMap Level.rows) := by
  rw [levels_eq]
  exact Forest.rows_perm_levels m.children (site.below m.id m.name) m.kind

theorem ids_perm_levels : (Forest.ids m.children).Perm ((m.levels site).flatMap Level.ids) := by
  rw [levels_eq]
  exact Forest.ids_perm_levels m.children (site.below m.id m.name) m.kind

end Member

namespace Forest

theorem rows_subset_of_mem {ms : Forest} {m : Member} (member : m ∈ ms) {parent : Container}
    {row : Row} (inside : row ∈ m.rows parent) : row ∈ rows ms parent := by
  obtain ⟨front, back, rfl⟩ := List.append_of_mem member
  rw [rows_append, rows]
  exact List.mem_append_right _ (List.mem_append_left _ inside)

end Forest

namespace Workspace

variable {w w' : Workspace} {source destination : Container} {before landing : Forest}
  {here there : Site} {frameHere frameThere frame : List Level}
  {putHere putThere : Forest → Workspace} {m : Member} {index : Nat}

/-- A member that goes elsewhere takes all identifiers below it along. -/
theorem Relocated.ids_perm (relocated : w.Relocated w' m here there before landing index frame)
    (distinct : (before.map Member.id).Nodup) (member : m ∈ before) : w'.ids.Perm w.ids := by
  have first := w.ids_perm_levels.trans (relocated.levels.flatMap_right Level.ids)
  have second := w'.ids_perm_levels.trans (relocated.levels_after.flatMap_right Level.ids)
  rw [List.flatMap_cons, List.flatMap_cons, List.flatMap_append, Level.ids_level,
    Level.ids_level] at first second
  have left := (Forest.perm_without distinct member).map Member.id
  have landed : ((Ordered.insertAt landing (m.rebased there.path) index).map Member.id).Perm
      (landing.map Member.id ++ [m.id]) := by
    rw [Ordered.insertAt_eq, Ordered.map_renumber_eq (f := Member.id) fun _ _ => rfl]
    refine ((Ordered.perm_insertion landing _ index).map Member.id).trans (.of_eq ?_)
    rw [List.map_append, List.map_cons, List.map_nil, Member.id_rebased]
  have below := m.ids_perm_levels here
  have below' := (m.rebased there.path).ids_perm_levels there
  rw [Member.children_rebased, Forest.ids_rebased] at below'
  rw [Ordered.map_renumber_eq (f := Member.id) fun _ _ => rfl] at second
  rw [List.map_append, List.map_cons, List.map_nil] at left
  refine second.trans (.trans ?_ first.symm)
  apply List.perm_iff_count.2
  intro id
  simp only [List.count_append, left.count_eq, landed.count_eq, ← below.count_eq,
    ← below'.count_eq]
  omega

/-- The rows below a member, once it has moved. -/
theorem carried_perm (m : Member) (there : Site) :
    (Forest.rows (m.rebased there.path).children (.ofNode there.container.root m.id)).Perm
      (((m.rebased there.path).levels there).flatMap Level.rows) := by
  have below := (m.rebased there.path).rows_perm_levels there
  rwa [Member.id_rebased] at below

section

variable (src : w.Window source before here frameHere putHere) (member : m ∈ before)

include src member

theorem Window.mem_rows_of_mem {row : Row} (inside : row ∈ m.rows source) : row ∈ w.rows :=
  src.mem_rows (Forest.rows_subset_of_mem member inside)

theorem Window.mem_ids_of_mem {node : Id} (inside : node ∈ m.ids) : node ∈ w.ids :=
  src.ids_perm.mem_iff.2 (List.mem_append_left _
    (Forest.ids_subset_of_mem (Forest.mem_subtrees_of_mem member) inside))

/-- What comes along with a member was there before, of the same kind. -/
theorem Window.exists_row_of_carried {row : Row}
    (carried : row ∈ ((m.rebased there.path).levels there).flatMap Level.rows) :
    ∃ old ∈ w.rows, old.id = row.id ∧ old.kind = row.kind := by
  have below := (carried_perm m there).mem_iff.2 carried
  have pair : (row.id, row.kind) ∈ (Forest.rows m.children (.ofNode source.root m.id)).map
      fun row => (row.id, row.kind) := by
    rw [← Forest.map_kind_rows_rebased m.children (there.path.child m.name)
      (.ofNode there.container.root m.id), ← Member.children_rebased]
    exact List.mem_map_of_mem below
  obtain ⟨old, here, same⟩ := List.mem_map.1 pair
  have listed : old ∈ m.rows source := by
    rw [Member.rows_eq]
    exact .tail _ here
  exact ⟨old, src.mem_rows_of_mem member listed, congrArg Prod.fst same, congrArg Prod.snd same⟩

/-- What comes along with a member stands in it or in a member below it. -/
theorem Window.holds_of_carried {row : Row} (root : (w.root? there.container.root).isSome)
    (carried : row ∈ ((m.rebased there.path).levels there).flatMap Level.rows) :
    (w.root? row.parent.root).isSome ∧ ∀ node, row.parent.node = some node → node ∈ w.ids := by
  have below := (carried_perm m there).mem_iff.2 carried
  rcases Forest.parent_of_mem_rows below with own | ⟨owner, listed, own⟩
  · rw [own]
    refine ⟨root, fun node same => src.mem_ids_of_mem member ?_⟩
    rw [Member.ids_eq, ← Option.some.inj same]
    exact .head _
  · rw [own]
    refine ⟨root, fun node same => src.mem_ids_of_mem member ?_⟩
    rw [Member.children_rebased, Forest.ids_rebased] at listed
    rw [Member.ids_eq, ← Option.some.inj same]
    exact .tail _ listed

end

section

variable (source destination : Container) (before landing : Forest) (m : Member)
  (here there : Site) (index : Nat)

/-- The rows that a transfer may set: of the list that the member leaves, of the list that it joins,
and below the member at its new place. -/
def transferred : List Row :=
  (Ordered.renumber (before.without m)).map (·.row source) ++
    ((Ordered.insertAt landing (m.rebased there.path) index).map (·.row destination) ++
      ((m.rebased there.path).levels there).flatMap Level.rows)

/-- The rows below the other members of both lists, which a transfer shows as they were. -/
def bystanders : List Row :=
  (Forest.innerLevels (before.without m) here).flatMap Level.rows ++
    (Forest.innerLevels landing there).flatMap Level.rows

end

section

variable (src : w.Window source before here frameHere putHere)
  (dst : w.Window destination landing there frameThere putThere)

include src dst

/-- A transfer shows the rows of both lists and all rows below them. -/
theorem transfer_rowsAfter_perm :
    ((transfer source destination before landing m there.path index).changes.flatMap
      Change.rowsAfter).Perm (transferred source destination before landing m there index ++
        bystanders before landing m here there) := by
  have kept := Forest.rows_renumber_perm (.refl (before.without m)) here
  have landed := Forest.rows_renumber_perm
    (Ordered.perm_insertion landing (m.rebased there.path) index) there
  rw [src.container_eq] at kept
  rw [dst.container_eq, ← Ordered.insertAt_eq, Forest.innerLevels_append, List.flatMap_append,
    Forest.innerLevels_singleton] at landed
  change (Forest.rows _ source ++ (Forest.rows _ destination ++ [])).Perm _
  apply List.perm_iff_count.2
  intro row
  simp only [transferred, bystanders, List.count_append, List.count_nil, kept.count_eq,
    landed.count_eq]
  omega

theorem mem_rows_of_bystander (left : before.Perm (before.without m ++ [m])) {row : Row}
    (inside : row ∈ bystanders before landing m here there) : row ∈ w.rows := by
  have whole : landing.Perm (landing ++ []) := .of_eq (List.append_nil landing).symm
  rcases List.mem_append.1 inside with inside | inside
  · exact src.mem_rows_below left inside
  · exact dst.mem_rows_below whole inside

variable (member : m ∈ before)

include member

/-- A transfer compares with rows that are there. -/
theorem mem_rows_of_transfer {change : Change}
    (inside : change ∈ (transfer source destination before landing m there.path index).changes)
    {row : Row} (known : row ∈ change.rowsBefore) : row ∈ w.rows := by
  rcases List.mem_cons.1 inside with rfl | inside
  · rcases List.mem_append.1 known with known | none
    · exact src.mem_rows known
    · exact absurd none List.not_mem_nil
  · obtain rfl := List.mem_singleton.1 inside
    rcases List.mem_append.1 known with known | arrived
    · exact dst.mem_rows known
    · rw [List.flatMap_singleton] at arrived
      exact src.mem_rows_of_mem member arrived

/-- A row that a transfer may set was there before, of the same kind. -/
theorem exists_row_of_transferred {row : Row}
    (inside : row ∈ transferred source destination before landing m there index) :
    ∃ old ∈ w.rows, old.id = row.id ∧ old.kind = row.kind := by
  rcases List.mem_append.1 inside with remaining | inside
  · obtain ⟨x, listed, rfl⟩ := List.mem_map.1 remaining
    obtain ⟨x, kept, n, rfl⟩ := Ordered.mem_renumber listed
    exact ⟨x.row source, src.mem_rows (Forest.row_mem_rows (Forest.mem_without.1 kept).1 _),
      rfl, rfl⟩
  rcases List.mem_append.1 inside with joined | carried
  · obtain ⟨x, listed, rfl⟩ := List.mem_map.1 joined
    obtain ⟨x, put, n, rfl⟩ := Ordered.mem_renumber listed
    rcases List.mem_append.1 ((Ordered.perm_insertion ..).mem_iff.1 put) with known | new
    · exact ⟨x.row destination, dst.mem_rows (Forest.row_mem_rows known _), rfl, rfl⟩
    · obtain rfl := List.mem_singleton.1 new
      exact ⟨m.row source, src.mem_rows (Forest.row_mem_rows member _),
        (m.id_rebased there.path).symm, (m.kind_rebased there.path).symm⟩
  · exact src.exists_row_of_carried member carried

/-- What a row that a transfer may set refers to is there. -/
theorem holds_of_transferred {row : Row}
    (inside : row ∈ transferred source destination before landing m there index) :
    (w.root? row.parent.root).isSome ∧ ∀ node, row.parent.node = some node → node ∈ w.ids := by
  have root : (w.root? there.container.root).isSome :=
    dst.container_eq ▸ (holds_of_members? dst.members).1
  rcases List.mem_append.1 inside with remaining | inside
  · obtain ⟨x, -, rfl⟩ := List.mem_map.1 remaining
    exact holds_of_members? src.members
  rcases List.mem_append.1 inside with joined | carried
  · obtain ⟨x, -, rfl⟩ := List.mem_map.1 joined
    exact holds_of_members? dst.members
  · exact src.holds_of_carried member root carried

end

/-- Each change of a transfer shows only rows that it compares with, and the moved member's. -/
theorem mem_ids_of_transfer (left : before.Perm (before.without m ++ [m])) {path : Path}
    {change : Change}
    (inside : change ∈ (transfer source destination before landing m path index).changes)
    {row : Row} (written : row ∈ change.rowsAfter) : row.id ∈ change.rowsBefore.map Row.id := by
  have id := Forest.id_mem_of_mem_rows written
  rcases List.mem_cons.1 inside with rfl | inside
  · rw [Forest.ids_renumber] at id
    change row.id ∈ (Forest.rows before source ++ []).map Row.id
    rw [List.append_nil, Forest.map_id_rows, (Forest.ids_perm left).mem_iff, Forest.ids_append]
    exact List.mem_append_left _ id
  · obtain rfl := List.mem_singleton.1 inside
    change row.id ∈ (Forest.rows landing destination ++ (m.rows source ++ [])).map Row.id
    rw [Ordered.insertAt_eq, Forest.ids_renumber,
      (Forest.ids_perm (Ordered.perm_insertion ..)).mem_iff, Forest.ids_append,
      Forest.ids_cons_eq, Member.ids_rebased] at id
    rwa [List.map_append, List.map_append, Forest.map_id_rows, Member.map_id_rows]

/-- The rows that a transfer compares. -/
theorem Relocated.accounts (relocated : w.Relocated w' m here there before landing index frame)
    (valid : w.Valid) (src : w.Window source before here frameHere putHere)
    (dst : w.Window destination landing there frameThere putThere) (member : m ∈ before) :
    ∃ novel stale others, (transfer source destination before landing m there.path index).Accounts
      w w' novel stale others := by
  have distinct := Forest.nodup_map_id (valid.nodup_present src)
  have left := Forest.perm_without distinct member
  have own := w.rows_perm_levels.trans (relocated.levels.flatMap_right Level.rows)
  have after := w'.rows_perm_levels.trans (relocated.levels_after.flatMap_right Level.rows)
  rw [List.flatMap_cons, List.flatMap_cons, List.flatMap_append, Level.rows_level,
    Level.rows_level, src.container_eq, dst.container_eq] at own after
  refine ⟨transferred source destination before landing m there index,
    bystanders before landing m here there, frame.flatMap Level.rows, ?_⟩
  exact {
    known := fun _ inside _ known => mem_rows_of_transfer src dst member inside known
    listed := fun _ inside _ written _ => mem_ids_of_transfer left inside written
    written := transfer_rowsAfter_perm src dst
    stale := fun _ inside => mem_rows_of_bystander src dst left inside
    after := by
      refine after.trans (.of_eq ?_)
      simp only [transferred, List.append_assoc]
    frame := fun _ inside => own.mem_iff.2 (List.mem_append_right _
      (List.mem_append_right _ (List.mem_append_right _ inside)))
    kinds := fun _ inside _ => exists_row_of_transferred src dst member inside
    parents := fun _ inside => holds_of_transferred src dst member inside
    deleted := nil_perm_filter_not_mem (relocated.ids_perm distinct member)
    alone := .inr (List.forall_mem_cons.2 ⟨rfl, List.forall_mem_singleton.2 rfl⟩) }

/-- A member may go to another container that is not below it, if it and all below it fit there
and its name is new. -/
theorem Valid.outcome_transfer (valid : w.Valid)
    (src : w.Window source before here frameHere putHere)
    (dst : w.Window destination landing there frameThere putThere) (member : m ∈ before)
    (other : destination ≠ source)
    (acyclic : ∀ node, destination.node = some node → node ∉ m.ids)
    (kind : there.shape.accepts there.depth m.kind = true)
    (inner : ∀ level ∈ Forest.innerLevels [m.rebased there.path] there, level.Sound)
    (apart : ∀ s ∈ landing, Text.lower s.name ≠ Text.lower m.name) (index : Nat) :
    ∃ w' frame, w.Outcome (transfer source destination before landing m there.path index) w' ∧
      w.Relocated w' m here there before landing index frame := by
  obtain ⟨w₁, w', frame, taken, landed, valid', ascends, relocated⟩ :=
    valid.exists_relocated src dst member other acyclic kind inner apart index
  have ids := map_roots_eq (f := Root.id) (fun _ => rfl) relocated.roots
  refine ⟨w', frame, ?_, relocated⟩
  exact {
    resolved := resolve_eq_ok (by
      refine List.forall_mem_cons.2 ⟨?_, List.forall_mem_singleton.2 ?_⟩
      · change (w.members? source).isSome
        rw [src.members]
        rfl
      · change (w.members? destination).isSome
        rw [dst.members]
        rfl) fun _ none => by cases none
    carried := by
      simp only [Rearrangement.carryOut, Rearrangement.ofTransfer, List.foldlM_cons,
        List.foldlM_nil, taken, landed, bind, Except.bind, pure, Except.pure]
    valid := valid'
    ascending := ascends
    accounts := relocated.accounts valid src dst member
    same_roots := fun _ => relocated.roots
    moved_roots := fun _ none => by cases none
    root_ids := .of_eq ids
    known_roots := known_of_map_shallow relocated.roots }

/-- Roots in another sequence, numbered anew. -/
theorem Valid.outcome_reordered (valid : w.Valid) {listing : List Root}
    (perm : listing.Perm w.roots) :
    w.Outcome { roots := some {
      before := w.roots.map Root.shallow
      after := (Ordered.renumber listing).map Root.shallow } } ⟨Ordered.renumber listing⟩ := by
  have ids : ((Ordered.renumber listing).map Root.id).Perm (w.roots.map Root.id) := by
    rw [Ordered.map_renumber_eq (f := Root.id) fun _ _ => rfl]
    exact perm.map _
  have rows : (Workspace.rows ⟨Ordered.renumber listing⟩).Perm w.rows :=
    (rows_perm_levels _).trans (((levels_renumber perm).flatMap_right _).trans
      w.rows_perm_levels.symm)
  exact {
    resolved := resolve_eq_ok (fun _ none => absurd none List.not_mem_nil) (by
      intro change same root inside
      obtain rfl := Option.some.inj same
      obtain ⟨root, listed, rfl⟩ := List.mem_map.1 inside
      obtain ⟨old, present, id⟩ := List.mem_map.1 (ids.mem_iff.1 (List.mem_map_of_mem listed))
      exact List.find?_isSome.2 ⟨old, present, decide_eq_true id⟩)
    carried := by
      simp only [Rearrangement.carryOut, List.foldlM_nil, bind, Except.bind, pure, Except.pure,
        patchRoots_renumber valid.roots_distinct perm]
    valid := valid.renumber perm
    ascending := fun ascending => ascending.renumber perm
    accounts := ⟨[], [], Workspace.rows ⟨Ordered.renumber listing⟩, {
      known := fun _ none => absurd none List.not_mem_nil
      listed := fun _ none => absurd none List.not_mem_nil
      written := .refl _
      stale := fun _ none => absurd none List.not_mem_nil
      after := .refl _
      frame := fun _ inside => rows.mem_iff.1 inside
      kinds := fun _ none => absurd none List.not_mem_nil
      parents := fun _ none => absurd none List.not_mem_nil
      deleted := nil_perm_filter_not_mem (ids_renumber perm)
      alone := .inl (Nat.zero_le 1) }⟩
    same_roots := fun none => by cases none
    moved_roots := fun _ same => by
      obtain rfl := Option.some.inj same
      exact ⟨rfl, rfl⟩
    root_ids := ids
    known_roots := by
      intro root inside
      obtain ⟨old, listed, n, rfl⟩ := Ordered.mem_renumber inside
      exact ⟨old, perm.mem_iff.1 listed, rfl⟩ }

end Workspace

end Outline

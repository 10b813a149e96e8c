import Outline.Plan
import Outline.Proofs.Rearrangements

/-!
# Outcomes

What a rearrangement comes to when all its lists are put in place.  It resolves, every patch
succeeds and the workspace is valid again (`Outline.Workspace.Outcome`), and the rows that its
plans compare account for every row that changes (`Outline.Rearrangement.Accounts`): they leave
out none, and those they compare besides are as they were, also where a list computed earlier
shows a subtree that has moved since.
-/

namespace Outline

namespace Rearrangement

/-- The workspace with every computed list in place, the list of roots last. -/
def carryOut (r : Rearrangement) (w : Workspace) : Except Absence Workspace := do
  let w ← r.changes.foldlM (fun w change => w.patch change.container change.after) w
  match r.roots with
  | some roots => w.patchRoots roots.after
  | none => return w

/-- The rows that the changes compare, against the rows of two workspaces.  The `novel` ones are
all that may differ; both the other rows compared and the other rows of the second workspace are
rows of the first. -/
structure Accounts (r : Rearrangement) (w w' : Workspace) (novel stale frame : List Row) :
    Prop where
  known : ∀ change ∈ r.changes, ∀ row ∈ change.rowsBefore, row ∈ w.rows
  listed : ∀ change ∈ r.changes, ∀ row ∈ change.rowsAfter,
    row.id ∈ w.ids → row.id ∈ change.rowsBefore.map Row.id
  written : (r.changes.flatMap Change.rowsAfter).Perm (novel ++ stale)
  stale : ∀ row ∈ stale, row ∈ w.rows
  after : w'.rows.Perm (novel ++ frame)
  frame : ∀ row ∈ frame, row ∈ w.rows
  kinds : ∀ row ∈ novel, row.id ∈ w.ids → ∃ old ∈ w.rows, old.id = row.id ∧ old.kind = row.kind
  parents : ∀ row ∈ novel, (w.root? row.parent.root).isSome ∧
    ∀ node, row.parent.node = some node → node ∈ w.ids
  deleted : (r.changes.flatMap Change.deleted).Perm (w.ids.filter (· ∉ w'.ids))
  /-- A change that deletes members is the only one. -/
  alone : r.changes.length ≤ 1 ∨ ∀ change ∈ r.changes, change.deleted = []

end Rearrangement

namespace Workspace

/-- What it means that a rearrangement of one workspace leads to another. -/
structure Outcome (w : Workspace) (r : Rearrangement) (w' : Workspace) : Prop where
  resolved : r.resolve w = .ok ()
  carried : r.carryOut w = .ok w'
  valid : w'.Valid
  ascending : w.Ascending → w'.Ascending
  accounts : ∃ novel stale frame, r.Accounts w w' novel stale frame
  same_roots : r.roots = none → w'.roots.map Root.shallow = w.roots.map Root.shallow
  moved_roots : ∀ roots, r.roots = some roots →
    roots.before = w.roots.map Root.shallow ∧ roots.after = w'.roots.map Root.shallow
  root_ids : (w'.roots.map Root.id).Perm (w.roots.map Root.id)
  /-- A root keeps all but its number. -/
  known_roots : ∀ root ∈ w'.roots, ∃ old ∈ w.roots,
    root.shallow = { old.shallow with order := root.order }

variable {w : Workspace}

theorem resolve_eq_ok {r : Rearrangement}
    (containers : ∀ change ∈ r.changes, (w.members? change.container).isSome)
    (roots : ∀ change, r.roots = some change → ∀ root ∈ change.after, (w.root? root.id).isSome) :
    r.resolve w = .ok () := by
  have found : r.changes.find? (fun change => (w.members? change.container).isNone) = none :=
    List.find?_eq_none.2 fun change inside => by
      simpa [Option.isSome_iff_ne_none] using containers change inside
  have known : (r.roots.bind fun roots =>
      roots.after.find? fun root => (w.root? root.id).isNone) = none := by
    refine Option.bind_eq_none_iff.2 fun change same => List.find?_eq_none.2 fun root inside => ?_
    simpa [Option.isSome_iff_ne_none] using roots change same root inside
  simp only [Rearrangement.resolve, found, known]

/-- A container with members belongs to a root, and is it or one of its members. -/
theorem holds_of_members? {container : Container} {ms : Forest}
    (members : w.members? container = some ms) : (w.root? container.root).isSome ∧
      ∀ node, container.node = some node → node ∈ w.ids := by
  obtain ⟨root, here, inside⟩ := Option.bind_eq_some_iff.1 members
  refine ⟨by rw [here]; rfl, fun node same => ?_⟩
  rw [same] at inside
  obtain ⟨found, located, -⟩ := Option.bind_eq_some_iff.1 inside
  have listed : node ∈ Forest.ids root.members :=
    (Forest.locate?_isSome_iff ..).1 (by rw [located]; rfl)
  exact List.mem_flatMap.2 ⟨root, List.mem_of_find?_eq_some here, listed⟩

end Workspace

/-- What goes is what is not there afterwards. -/
theorem perm_filter_not_mem {xs ys kept gone : List Id} (split : xs.Perm (kept ++ gone))
    (stay : ∀ x ∈ kept, x ∈ ys) (leave : ∀ x ∈ gone, x ∉ ys) :
    gone.Perm (xs.filter (· ∉ ys)) := by
  refine .symm ((split.filter _).trans (.of_eq ?_))
  rw [List.filter_append, List.filter_eq_nil_iff.2, List.filter_eq_self.2, List.nil_append]
  · exact fun x inside => decide_eq_true (leave x inside)
  · exact fun x inside => by simpa using stay x inside

/-- Nothing goes where the same stays. -/
theorem nil_perm_filter_not_mem {xs ys : List Id} (same : ys.Perm xs) :
    ([] : List Id).Perm (xs.filter (· ∉ ys)) := by
  apply perm_filter_not_mem (.of_eq (List.append_nil xs).symm)
  · exact fun x inside => same.mem_iff.2 inside
  · exact fun x none => absurd none List.not_mem_nil

namespace Forest

/-- The rows of a forest are those of its list and those of the levels below. -/
theorem rows_perm_own (ms : Forest) (site : Site) : (rows ms site.container).Perm
    (ms.map (·.row site.container) ++ (innerLevels ms site).flatMap Level.rows) := by
  refine (rows_perm_levels ms site .interior).trans (.of_eq ?_)
  rw [levels, List.flatMap_cons, Level.rows, List.map_map]
  rfl

/-- Numbering a list anew leaves the levels below as they are. -/
theorem rows_renumber_perm {list parts : Forest} (listed : list.Perm parts) (site : Site) :
    (rows (Ordered.renumber list) site.container).Perm
      ((Ordered.renumber list).map (·.row site.container) ++
        (innerLevels parts site).flatMap Level.rows) := by
  refine (rows_perm_own _ site).trans (.append_left _ ?_)
  rw [innerLevels_renumber]
  exact (innerLevels_perm listed site).flatMap_right _

theorem id_mem_ids {ms : Forest} {m : Member} (member : m ∈ ms) : m.id ∈ ids ms :=
  List.mem_map_of_mem (mem_subtrees_of_mem member)

/-- Below members without children all levels are empty. -/
theorem members_of_childless {ms : Forest} (childless : ∀ m ∈ ms, m.children = []) {site : Site}
    {level : Level} (inside : level ∈ innerLevels ms site) : level.members = [] := by
  rw [innerLevels_eq_flatMap] at inside
  obtain ⟨m, member, inside⟩ := List.mem_flatMap.1 inside
  rw [Member.levels_eq, childless m member] at inside
  obtain rfl := List.mem_singleton.1 inside
  rfl

theorem row_mem_rows {ms : Forest} {m : Member} (member : m ∈ ms) (parent : Container) :
    m.row parent ∈ rows ms parent := by
  obtain ⟨front, back, rfl⟩ := List.append_of_mem member
  rw [rows_append, rows_cons]
  exact List.mem_append_right _ (.head _)

theorem id_mem_of_mem_rows {ms : Forest} {parent : Container} {row : Row}
    (inside : row ∈ rows ms parent) : row.id ∈ ids ms := by
  rw [← map_id_rows ms parent]
  exact List.mem_map_of_mem inside

/-- Neither paths nor places bear on which members of which kind there are. -/
theorem map_kind_rows_rebased (ms : Forest) (path : Path) (parent parent' : Container) :
    (rows (rebased ms path) parent).map (fun row => (row.id, row.kind)) =
      (rows ms parent').map fun row => (row.id, row.kind) := by
  induction ms using Forest.induct generalizing path parent parent' with
  | nil => rfl
  | cons m ms inner later =>
      rw [rebased, rows_cons, rows_cons, List.map_cons, List.map_cons, List.map_append,
        List.map_append, Member.children_rebased,
        inner _ _ (.ofNode parent'.root m.id), later _ _ parent']
      simp only [Member.row, Member.id_rebased, Member.kind_rebased]

/-- A row of a forest belongs to the forest's container or to one of its members. -/
theorem parent_of_mem_rows {ms : Forest} {parent : Container} {row : Row}
    (inside : row ∈ rows ms parent) :
    row.parent = parent ∨ ∃ node ∈ ids ms, row.parent = .ofNode parent.root node := by
  induction ms using Forest.induct generalizing parent with
  | nil => exact absurd inside List.not_mem_nil
  | cons m ms inner later =>
      rw [ids_cons]
      rcases List.mem_cons.1 (rows_cons m ms parent ▸ inside) with rfl | inside
      · exact .inl rfl
      · rcases List.mem_append.1 inside with below | after
        · refine .inr ?_
          rcases inner below with own | ⟨node, listed, same⟩
          · exact ⟨m.id, .head _, own⟩
          · exact ⟨node, .tail _ (List.mem_append_left _ listed), same⟩
        · rcases later after with own | ⟨node, listed, same⟩
          · exact .inl own
          · exact .inr ⟨node, .tail _ (List.mem_append_right _ listed), same⟩

end Forest

namespace Workspace

section

variable {w : Workspace} {container : Container} {present : Forest} {site : Site}
  {frame : List Level} {put : Forest → Workspace}

namespace Window

variable (window : w.Window container present site frame put)

include window

theorem rows_perm :
    w.rows.Perm (Forest.rows present container ++ frame.flatMap Level.rows) := by
  apply (w.rows_perm_levels.trans (window.levels.flatMap_right _)).trans
  rw [List.flatMap_append, ← window.container_eq]
  exact (Forest.rows_perm_levels present site .interior).symm.append_right _

theorem put_rows_perm (ms : Forest) :
    (put ms).rows.Perm (Forest.rows ms container ++ frame.flatMap Level.rows) := by
  apply ((put ms).rows_perm_levels.trans ((window.put_levels ms).flatMap_right _)).trans
  rw [List.flatMap_append, ← window.container_eq]
  exact (Forest.rows_perm_levels ms site .interior).symm.append_right _

theorem mem_rows {row : Row} (inside : row ∈ Forest.rows present container) : row ∈ w.rows :=
  window.rows_perm.mem_iff.2 (List.mem_append_left _ inside)

/-- What stands below some of the members are rows of the workspace. -/
theorem mem_rows_below {part rest : Forest} (split : present.Perm (part ++ rest)) {row : Row}
    (inside : row ∈ (Forest.innerLevels part site).flatMap Level.rows) : row ∈ w.rows := by
  apply w.rows_perm_levels.mem_iff.2
  obtain ⟨level, below, inside⟩ := List.mem_flatMap.1 inside
  refine List.mem_flatMap.2 ⟨level, (window.levels_split split).mem_iff.2 ?_, inside⟩
  exact .tail _ (List.mem_append_left _ (List.mem_append_left _ below))

/-- Of the identifiers of the workspace, those of the members that a list lets go are lost. -/
theorem gone_perm (valid : w.Valid) {kept gone new list : Forest}
    (split : present.Perm (kept ++ gone)) (listed : list.Perm (kept ++ new))
    (fresh : (Forest.ids new ++ w.ids).Nodup) : (Forest.ids gone).Perm
      (w.ids.filter (· ∉ (put (Ordered.renumber list)).ids)) := by
  have before : w.ids.Perm (Forest.ids kept ++ frame.flatMap Level.ids ++ Forest.ids gone) := by
    apply (window.ids_perm.trans ((Forest.ids_perm split).append_right _)).trans
    rw [Forest.ids_append, List.append_assoc, List.append_assoc]
    exact List.perm_append_comm.append_left _
  have after : (put (Ordered.renumber list)).ids.Perm
      (Forest.ids kept ++ Forest.ids new ++ frame.flatMap Level.ids) := by
    refine (window.put_ids_perm _).trans (.append_right _ ?_)
    rw [Forest.ids_renumber, ← Forest.ids_append]
    exact Forest.ids_perm listed
  have apart := (List.nodup_append.1 (before.nodup_iff.1 valid.members_distinct)).2.2
  apply perm_filter_not_mem before
  · intro x inside
    apply after.mem_iff.2
    rcases List.mem_append.1 inside with kept | outside
    · exact List.mem_append_left _ (List.mem_append_left _ kept)
    · exact List.mem_append_right _ outside
  · intro x inside there
    rcases List.mem_append.1 (after.mem_iff.1 there) with listed | outside
    · rcases List.mem_append.1 listed with kept | new
      · exact apart x (List.mem_append_left _ kept) x inside rfl
      · apply (List.nodup_append.1 fresh).2.2 x new x _ rfl
        exact before.mem_iff.2 (List.mem_append_right _ inside)
    · exact apart x (List.mem_append_right _ outside) x inside rfl

end Window

/-- Roots that are the same apart from their members are all known. -/
theorem known_of_map_shallow {w' : Workspace}
    (same : w'.roots.map Root.shallow = w.roots.map Root.shallow) : ∀ root ∈ w'.roots,
      ∃ old ∈ w.roots, root.shallow = { old.shallow with order := root.order } := by
  intro root inside
  have listed : root.shallow ∈ w.roots.map Root.shallow := same ▸ List.mem_map_of_mem inside
  obtain ⟨old, present, fields⟩ := List.mem_map.1 listed
  refine ⟨old, present, ?_⟩
  rw [fields]
  rfl

/-- The rows of a list that keeps some members, lets others go and takes in new ones without
children. -/
theorem Window.accounts_renumber (window : w.Window container present site frame put)
    (valid : w.Valid) {kept gone new list : Forest} {deleted : List Id}
    (split : present.Perm (kept ++ gone)) (listed : list.Perm (kept ++ new))
    (childless : ∀ m ∈ new, m.children = []) (fresh : (Forest.ids new ++ w.ids).Nodup)
    (all : deleted.Perm (Forest.ids gone)) :
    ∃ novel stale others, Rearrangement.Accounts { changes := [{
      container := container, before := present, after := Ordered.renumber list,
      deleted := deleted }] } w (put (Ordered.renumber list)) novel stale others := by
  have bare : (Forest.innerLevels new site).flatMap Level.rows = [] := by
    apply List.flatMap_eq_nil_iff.2
    intro level inside
    rw [Level.rows, Forest.members_of_childless childless inside]
    rfl
  have stranger : ∀ m ∈ new, m.id ∉ w.ids := fun m member inside =>
    (List.nodup_append.1 fresh).2.2 m.id (Forest.id_mem_ids member) m.id inside rfl
  have own : (Forest.rows (Ordered.renumber list) container).Perm
      ((Ordered.renumber list).map (·.row container) ++
        (Forest.innerLevels kept site).flatMap Level.rows) := by
    have own := Forest.rows_renumber_perm listed site
    rwa [window.container_eq, Forest.innerLevels_append, List.flatMap_append, bare,
      List.append_nil] at own
  have stays : ∀ row ∈ (Forest.innerLevels kept site).flatMap Level.rows, row ∈ w.rows :=
    fun row inside => window.mem_rows_below split inside
  refine ⟨(Ordered.renumber list).map (·.row container), (Forest.innerLevels kept site).flatMap
    Level.rows, (Forest.innerLevels kept site).flatMap Level.rows ++ frame.flatMap Level.rows, ?_⟩
  exact {
    known := by
      intro change inside row here
      obtain rfl := List.mem_singleton.1 inside
      rcases List.mem_append.1 here with here | none
      · exact window.mem_rows here
      · exact absurd none List.not_mem_nil
    listed := by
      intro change inside row here known
      obtain rfl := List.mem_singleton.1 inside
      have id := Forest.id_mem_of_mem_rows here
      rw [Forest.ids_renumber, (Forest.ids_perm listed).mem_iff, Forest.ids_append] at id
      rw [Change.rowsBefore, List.flatMap_nil, List.append_nil, Forest.map_id_rows,
        (Forest.ids_perm split).mem_iff, Forest.ids_append]
      rcases List.mem_append.1 id with kept | new
      · exact List.mem_append_left _ kept
      · exact absurd rfl ((List.nodup_append.1 fresh).2.2 row.id new row.id known)
    written := by
      rw [List.flatMap_cons, List.flatMap_nil, List.append_nil]
      exact own
    stale := stays
    after := by
      rw [← List.append_assoc]
      exact (window.put_rows_perm _).trans (own.append_right _)
    frame := by
      intro row inside
      rcases List.mem_append.1 inside with below | outside
      · exact stays row below
      · exact window.rows_perm.mem_iff.2 (List.mem_append_right _ outside)
    kinds := by
      intro row inside known
      obtain ⟨m, member, rfl⟩ := List.mem_map.1 inside
      obtain ⟨x, of_list, n, rfl⟩ := Ordered.mem_renumber member
      rcases List.mem_append.1 (listed.mem_iff.1 of_list) with kept | new
      · refine ⟨x.row container, window.mem_rows (Forest.row_mem_rows ?_ _), rfl, rfl⟩
        exact split.mem_iff.2 (List.mem_append_left _ kept)
      · exact absurd known (stranger x new)
    parents := by
      intro row inside
      obtain ⟨m, -, rfl⟩ := List.mem_map.1 inside
      exact holds_of_members? window.members
    deleted := by
      rw [List.flatMap_cons, List.flatMap_nil, List.append_nil]
      exact all.trans (window.gone_perm valid split listed fresh)
    alone := .inl (Nat.le_refl 1) }

theorem carryOut_single {w' : Workspace} {change : Change}
    (patched : w.patch change.container change.after = .ok w') :
    Rearrangement.carryOut { changes := [change] } w = .ok w' := by
  simp only [Rearrangement.carryOut, List.foldlM_cons, List.foldlM_nil, patched, bind,
    Except.bind, pure, Except.pure]

/-- A list that keeps some members, lets others go and takes in new ones without children has an
outcome. -/
theorem Valid.outcome_renumber (valid : w.Valid)
    (window : w.Window container present site frame put) {kept gone new list : Forest}
    {deleted : List Id} (split : present.Perm (kept ++ gone)) (listed : list.Perm (kept ++ new))
    (names : ((kept ++ new).map fun m => Text.lower m.name).Nodup)
    (paths : ∀ m ∈ new, m.path = site.path.child m.name)
    (kinds : ∀ m ∈ new, site.shape.accepts site.depth m.kind = true)
    (childless : ∀ m ∈ new, m.children = []) (fresh : (Forest.ids new ++ w.ids).Nodup)
    (all : deleted.Perm (Forest.ids gone)) :
    w.Outcome { changes := [{
      container := container, before := present, after := Ordered.renumber list,
      deleted := deleted }] } (put (Ordered.renumber list)) := by
  have empty : ∀ level ∈ Forest.innerLevels new site, level.members = [] := fun _ inside =>
    Forest.members_of_childless childless inside
  have of_kept : ∀ m ∈ kept, m ∈ present := fun m inside =>
    split.mem_iff.2 (List.mem_append_left _ inside)
  have stranger : ∀ m ∈ new, m.id ∉ w.ids := fun m member inside =>
    (List.nodup_append.1 fresh).2.2 m.id (Forest.id_mem_ids member) m.id inside rfl
  have distinct : (list.map Member.id).Nodup := by
    have before := (split.map Member.id).nodup_iff.1
      (Forest.nodup_map_id (valid.nodup_present window))
    rw [List.map_append] at before
    apply (listed.map Member.id).nodup_iff.2
    rw [List.map_append]
    refine List.nodup_append.2 ⟨(List.nodup_append.1 before).1, ?_, ?_⟩
    · exact Forest.nodup_map_id (List.nodup_append.1 fresh).1
    · rintro _ inKept _ inNew rfl
      obtain ⟨m, member, rfl⟩ := List.mem_map.1 inNew
      exact window.not_mem_map_id (stranger m member) (List.map_subset _ of_kept inKept)
  have settles : Forest.patched present (Ordered.renumber list) = Ordered.renumber list := by
    apply valid.patched_renumber window distinct
    intro m inside
    rcases List.mem_append.1 (listed.mem_iff.1 inside) with kept | new
    · exact .inl (of_kept m kept)
    · exact .inr (window.not_mem_map_id (stranger m new))
  exact {
    resolved := resolve_eq_ok (List.forall_mem_singleton.2 (by rw [window.members]; rfl))
      fun _ none => by cases none
    carried := carryOut_single (by rw [window.patch, settles])
    valid := window.valid_renumber valid split listed names paths kinds
      (fun level inside => Level.sound_of_empty (empty level inside)) fresh
    ascending := fun ascending => window.ascending_renumber ascending split listed
      fun level inside => by rw [Level.Ascending, empty level inside]; exact .nil
    accounts := window.accounts_renumber valid split listed childless fresh all
    same_roots := fun _ => window.put_roots _
    moved_roots := fun _ none => by cases none
    root_ids := by rw [map_roots_eq (f := Root.id) (fun _ => rfl) (window.put_roots _)]
    known_roots := known_of_map_shallow (window.put_roots _) }

/-- A list that keeps some members and lets others go has an outcome. -/
theorem Valid.outcome_remaining (valid : w.Valid)
    (window : w.Window container present site frame put) {kept gone : Forest}
    {deleted : List Id} (split : present.Perm (kept ++ gone))
    (all : deleted.Perm (Forest.ids gone)) :
    w.Outcome { changes := [{
      container := container, before := present, after := Ordered.renumber kept,
      deleted := deleted }] } (put (Ordered.renumber kept)) := by
  have listed : kept.Perm (kept ++ []) := .of_eq (List.append_nil kept).symm
  refine valid.outcome_renumber window split listed ?_ ?_ ?_ ?_ valid.members_distinct all
  · have names : ((kept ++ gone).map fun m => Text.lower m.name).Nodup :=
      (split.map _).nodup_iff.1 (Forest.sound_iff.1 (valid.sound window.level_mem)).2.1
    rw [List.map_append] at names
    rw [List.append_nil]
    exact names.sublist (List.sublist_append_left ..)
  · exact fun _ inside => absurd inside List.not_mem_nil
  · exact fun _ inside => absurd inside List.not_mem_nil
  · exact fun _ inside => absurd inside List.not_mem_nil

end

end Workspace

end Outline

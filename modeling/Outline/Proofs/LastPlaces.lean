import Mathlib.Data.List.Basic
import Outline.Proofs.Crossings
import Outline.Proofs.Deletions
import Outline.Proofs.MovedPaths

/-!
# Last places

What comes last among members numbered from one takes the next number and leaves all the others as
they are, whatever stands below them and however they are listed (`Outline.Change.plan_append`).  So
an added member is created and nothing else happens, and a member that joins others at the end is
alone updated there, with all below it (`Outline.Workspace.Valid.lastPlaces_disturb_nobody`).
-/

namespace Outline

namespace Ordered

variable {α : Type} [Ordered α] {items : List α}

theorem numberFrom_append (n : Nat) (items others : List α) :
    numberFrom n (items ++ others) =
      numberFrom n items ++ numberFrom (n + items.length) others := by
  induction items generalizing n with
  | nil => rfl
  | cons x xs ih =>
      rw [List.cons_append, numberFrom, numberFrom, ih, List.length_cons, List.cons_append,
        Nat.add_assoc, Nat.add_comm 1]

/-- What comes last takes the next number, and the others keep theirs. -/
theorem append_eq_of_dense (dense : isDense items = true) (new : α) :
    append items new = sorted items ++ [withOrder new (items.length + 1)] := by
  have kept : numberFrom 1 (sorted items) = sorted items := renumber_sorted dense
  rw [append_eq, renumber, numberFrom_append, kept, length_sorted, Nat.add_comm]
  rfl

end Ordered

namespace Forest

theorem rows_subset {ms ns : Forest} (within : ms ⊆ ns) (owner : Container) :
    rows ms owner ⊆ rows ns owner := by
  intro row inside
  obtain ⟨parent, m, same, listed⟩ := mem_rows_iff.1 inside
  exact mem_rows_iff.2 ⟨parent, m, same, listed.mono within⟩

end Forest

theorem Member.ids_withOrder (m : Member) (n : Nat) : (Ordered.withOrder m n).ids = m.ids := by
  rw [ids_eq, ids_eq, ordered_withOrder]

namespace Change

/-- Only what comes last, and what is below it, may need anything. -/
theorem plan_append {change : Change} {new : Member}
    (dense : Ordered.isDense change.before = true)
    (unique : ∀ r ∈ change.rowsBefore, ∀ s ∈ change.rowsBefore, r.id = s.id → r = s)
    (last : change.after = Ordered.append change.before new) :
    let rows := Member.rows (Ordered.withOrder new (change.before.length + 1)) change.container
    change.plan = {
      container := change.container
      creates := rows.filter fun row => (rowOf? change.rowsBefore row.id).isNone
      updates := rows.filterMap (Row.updateFrom? change.rowsBefore)
      deletes := change.deleted } := by
  intro rows
  have after : change.rowsAfter =
      Forest.rows (Ordered.sorted change.before) change.container ++ rows := by
    rw [rowsAfter, last, Ordered.append_eq_of_dense dense, Forest.rows_append, Forest.rows,
      Forest.rows, List.append_nil]
  have known : ∀ row ∈ Forest.rows (Ordered.sorted change.before) change.container,
      row ∈ change.rowsBefore := fun row inside =>
    List.mem_append_left _ (Forest.rows_subset (fun _ => Ordered.mem_sorted.1) _ inside)
  have creates : change.plan.creates =
      rows.filter fun row => (rowOf? change.rowsBefore row.id).isNone := by
    rw [creates_plan, after, List.filter_append, List.filter_eq_nil_iff.2, List.nil_append]
    intro row inside
    rw [rowOf?_eq_some_of_mem unique (known row inside)]
    exact Bool.false_ne_true
  have updates : change.plan.updates = rows.filterMap (Row.updateFrom? change.rowsBefore) := by
    rw [updates_plan, after, List.filterMap_append, List.filterMap_eq_nil_iff.2, List.nil_append]
    exact fun row inside => Row.updateFrom?_eq_none_of_mem unique (known row inside)
  rw [← creates, ← updates]
  rfl

end Change

/-- The update of a member that comes to the container, to have the number and the path there. -/
def Member.joining (m : Member) (container : Container) (number : Nat) (path : Path) : Update where
  id := m.id
  order := if m.order = number then none else some number
  parent := some container
  path := if m.path = path then none else some path

/-- The update of a row below a member that goes from the path `old` to the path `new`, perhaps in
another root. -/
def Row.carrying (row : Row) (root : Id) (old new : Path) : Update where
  id := row.id
  parent := if row.parent.root = root then none else some { row.parent with root }
  path := if new = old then none else some (row.path.moved old new)

/-- The updates of a member that comes to the end of a list, and of those below it. -/
def Member.joiningAll (m : Member) (source destination : Container) (number : Nat) (path : Path) :
    List Update :=
  m.joining destination number (path.child m.name) ::
    ((Forest.rows m.children (.ofNode source.root m.id)).map
      (·.carrying destination.root m.path (path.child m.name))).filter (!·.isEmpty)

theorem Row.updateTo_carried {row : Row} {old new : Path}
    (begins : old.segments <+: row.path.segments) (root : Id) :
    row.updateTo (row.carried root old new) = row.carrying root old new := by
  have parent : row.parent = { row.parent with root } ↔ row.parent.root = root :=
    ⟨fun same => congrArg Container.root same, fun same => by rw [← same]⟩
  have path : row.path = row.path.moved old new ↔ new = old :=
    eq_comm.trans (Path.moved_eq_self_iff begins)
  rw [updateTo, carrying, carried]
  simp only [parent, path, if_true]

/-- The updates that are not empty among those made of some rows. -/
theorem filterMap_updates (made : Row → Update) (rows : List Row) :
    rows.filterMap (fun row => if (made row).isEmpty then none else some (made row)) =
      (rows.map made).filter fun update => !update.isEmpty := by
  rw [← List.filterMap_eq_filter, List.filterMap_map]
  refine List.filterMap_congr fun row _ => ?_
  rw [Function.comp_apply, Option.guard]
  cases (made row).isEmpty
  case true => rfl
  case false => rfl

/-- All that is planned in the container to which a member comes. -/
theorem Member.filterMap_updateFrom?_of_joining {m : Member}
    (consistent : Forest.Consistent m.children m.path) {table : List Row}
    {source destination : Container} (other : destination ≠ source)
    (known : ∀ row ∈ m.rows source, rowOf? table row.id = some row) (path : Path) (number : Nat) :
    (Member.rows (Ordered.withOrder (m.rebased path) number) destination).filterMap
        (Row.updateFrom? table) =
      m.joiningAll source destination number path := by
  have moved := Forest.rows_rebased_moved consistent (Nat.le_refl _) (path.child m.name)
    source.root destination.root (some m.id)
  rw [Path.moved_self] at moved
  have whole : Member.rows (Ordered.withOrder (m.rebased path) number) destination =
      { m.row destination with order := number, path := path.child m.name } ::
        (Forest.rows m.children (.ofNode source.root m.id)).map
          (·.carried destination.root m.path (path.child m.name)) := by
    rw [rows_eq, ordered_withOrder]
    dsimp only
    rw [children_rebased, id_rebased, Container.ofNode, moved, rebased_eq]
    rfl
  rw [rows_eq] at known
  obtain ⟨own, below⟩ := List.forall_mem_cons.1 known
  have first : Row.updateFrom? table
      { m.row destination with order := number, path := path.child m.name } =
        some (m.joining destination number (path.child m.name)) := by
    have brought : (m.row source).updateTo
        { m.row destination with order := number, path := path.child m.name } =
          m.joining destination number (path.child m.name) := by
      rw [Row.updateTo, joining, Update.mk.injEq]
      exact ⟨rfl, rfl, if_neg other.symm, rfl, if_pos rfl⟩
    have filled : (m.joining destination number (path.child m.name)).isEmpty = false := by
      simp [Update.isEmpty, joining]
    rw [Row.updateFrom?_of_rowOf? own (by rfl), brought, filled]
    rfl
  have later : ∀ row ∈ Forest.rows m.children (.ofNode source.root m.id),
      (row.carried destination.root m.path (path.child m.name)).updateFrom? table =
        if (row.carrying destination.root m.path (path.child m.name)).isEmpty then none
        else some (row.carrying destination.root m.path (path.child m.name)) := by
    intro row inside
    have begins := Forest.path_begins consistent inside
    rw [Row.updateFrom?_of_rowOf? (below row inside) (by rfl), Row.updateTo_carried begins]
  rw [whole, List.filterMap_cons_some first, List.filterMap_map, joiningAll, ← filterMap_updates]
  exact congrArg _ (List.filterMap_congr later)

/-- The plan of a change that takes a member in at the end of a list. -/
theorem Change.plan_joining {m : Member} {source destination : Container} {landing : Forest}
    (dense : Ordered.isDense landing = true) (other : destination ≠ source)
    (consistent : Forest.Consistent m.children m.path) (path : Path)
    (unique : ∀ r ∈ Forest.rows landing destination ++ m.rows source,
      ∀ s ∈ Forest.rows landing destination ++ m.rows source, r.id = s.id → r = s) :
    Change.plan {
      container := destination
      before := landing
      after := Ordered.append landing (m.rebased path)
      arrivals := [{ source, member := m }] } = {
        container := destination
        updates := m.joiningAll source destination (landing.length + 1) path } := by
  have before : Change.rowsBefore {
      container := destination
      before := landing
      after := Ordered.append landing (m.rebased path)
      arrivals := [{ source, member := m }] } =
        Forest.rows landing destination ++ m.rows source :=
    congrArg (Forest.rows landing destination ++ ·) (List.append_nil _)
  have known : ∀ row ∈ m.rows source,
      rowOf? (Forest.rows landing destination ++ m.rows source) row.id = some row :=
    fun row inside => rowOf?_eq_some_of_mem unique (List.mem_append_right _ inside)
  rw [plan_append dense (by rwa [before]) rfl, before]
  dsimp only
  rw [Member.filterMap_updateFrom?_of_joining consistent other known,
    List.filter_eq_nil_iff.2]
  intro row inside
  have own : row.id ∈ m.ids := by
    have same : Member.ids (Ordered.withOrder (m.rebased path) (landing.length + 1)) = m.ids := by
      rw [Member.ids_withOrder, Member.ids_rebased]
    rw [← same, ← Member.map_id_rows _ destination]
    exact List.mem_map_of_mem inside
  rw [rowOf?_isNone_iff, List.map_append, Member.map_id_rows]
  exact not_not_intro (List.mem_append_right _ own)

/-- The plan of a change that puts a new member last. -/
theorem Change.plan_fresh {container : Container} {siblings : Forest}
    (dense : Ordered.isDense siblings = true) (distinct : (Forest.ids siblings).Nodup) {id : Id}
    (fresh : id ∉ Forest.ids siblings) (name : String) (kind : Kind) (path : Path) :
    Change.plan {
      container
      before := siblings
      after := Ordered.append siblings (.fresh id name 0 kind path) } = {
        container
        creates := [{
          id, parent := container, name, kind
          order := siblings.length + 1
          path := path.child name }] } := by
  have before : Change.rowsBefore {
      container
      before := siblings
      after := Ordered.append siblings (.fresh id name 0 kind path) } =
        Forest.rows siblings container := List.append_nil _
  have unique := Forest.row_ext distinct container
  have absent : rowOf? (Forest.rows siblings container) id = none := by
    rwa [← Option.isNone_iff_eq_none, rowOf?_isNone_iff, Forest.map_id_rows]
  rw [plan_append dense (by rwa [before]) rfl, before]
  dsimp only
  have rows : Member.rows (Ordered.withOrder (Member.fresh id name 0 kind path)
      (siblings.length + 1)) container = [{
        id, parent := container, name, kind
        order := siblings.length + 1
        path := path.child name }] := rfl
  rw [rows]
  simp only [List.filter_cons, absent, List.filterMap_cons, Row.updateFrom?]
  rfl

namespace Member

variable {m : Member} {source destination : Container} {number : Nat} {path : Path}

theorem mem_joiningAll {update : Update} : update ∈ m.joiningAll source destination number path ↔
    update = m.joining destination number (path.child m.name) ∨
      (∃ row ∈ Forest.rows m.children (.ofNode source.root m.id),
        update = row.carrying destination.root m.path (path.child m.name)) ∧
          update.isEmpty = false := by
  simp only [joiningAll, List.mem_cons, List.mem_filter, List.mem_map, Bool.not_eq_eq_eq_not,
    Bool.not_true, eq_comm (a := update)]

theorem map_id_joiningAll_sublist :
    ((m.joiningAll source destination number path).map Update.id).Sublist m.ids := by
  rw [ids_eq, ← Forest.map_id_rows m.children (.ofNode source.root m.id), joiningAll, List.map_cons]
  have kept := (List.filter_sublist (p := fun update : Update => !update.isEmpty)
    (l := (Forest.rows m.children (.ofNode source.root m.id)).map
      (·.carrying destination.root m.path (path.child m.name)))).map Update.id
  rw [List.map_map] at kept
  exact kept.cons_cons m.id

/-- Only the member itself may get another number. -/
theorem order_of_mem_joiningAll {update : Update}
    (inside : update ∈ m.joiningAll source destination number path) (below : update.id ≠ m.id) :
    update.order = none := by
  rcases mem_joiningAll.1 inside with rfl | ⟨⟨row, -, rfl⟩, -⟩
  · exact absurd rfl below
  · rfl

/-- Those below the member get a new parent just if they come to another root. -/
theorem exists_parent_iff (distinct : m.ids.Nodup) {x : Member}
    (below : x ∈ Forest.subtrees m.children) :
    (∃ update ∈ m.joiningAll source destination number path,
      update.id = x.id ∧ update.parent.isSome) ↔ destination.root ≠ source.root := by
  have others := (List.nodup_cons.1 (m.ids_eq ▸ distinct)).1
  have root : ∀ row ∈ Forest.rows m.children (.ofNode source.root m.id),
      row.parent.root = source.root := fun _ => Forest.root_of_mem_rows
  constructor
  · rintro ⟨update, inside, named, parent⟩
    rcases mem_joiningAll.1 inside with rfl | ⟨⟨row, listed, rfl⟩, -⟩
    · have own : m.id = x.id := named
      exact absurd (own ▸ List.mem_map_of_mem below) others
    · intro same
      have stays : (if row.parent.root = destination.root then none
          else some { row.parent with root := destination.root } : Option Container) = none :=
        if_pos ((root row listed).trans same.symm)
      rw [Row.carrying, stays] at parent
      cases parent
  · intro other
    have known : x.id ∈ Forest.ids m.children := List.mem_map_of_mem below
    rw [← Forest.map_id_rows m.children (.ofNode source.root m.id)] at known
    obtain ⟨row, listed, named⟩ := List.mem_map.1 known
    have parent : (row.carrying destination.root m.path (path.child m.name)).parent =
        some { row.parent with root := destination.root } :=
      if_neg fun same => other (same.symm.trans (root row listed))
    refine ⟨_, mem_joiningAll.2 (.inr ⟨⟨row, listed, rfl⟩, ?_⟩), named, by rw [parent]; rfl⟩
    rw [Update.isEmpty, parent]
    simp

end Member

/-- The member that a move puts last in another container, and that container. -/
def Move.joins? : Move → Option (Origin × Container)
  | .intoMember origin destination => some (origin, destination)
  | .intoRoot origin root => some (origin, .ofRoot root)
  | .within .. | .across .. | .ofRoot .. => none

namespace Workspace

/-- What is planned where `m` leaves `before`, which `source` lists, to come last in `landing`,
which `destination` lists at the path. -/
structure Joins (m : Member) (source destination : Container) (before landing : Forest)
    (path : Path) (left entered : Batch) : Prop where
  leaves : left.container = source
  left_creates : left.creates = []
  left_deletes : left.deletes = []
  /-- Each sibling behind the member comes one place further up. -/
  left_updates : left.updates.Perm
    ((before.filter (m.order < ·.order)).map fun s => s.renumbering (s.order - 1))
  enters : entered.container = destination
  creates : entered.creates = []
  deletes : entered.deletes = []
  /-- The member takes the next number, and those below it the paths and the root that follow. -/
  updates : entered.updates = m.joiningAll source destination (landing.length + 1) path
  once : (entered.updates.map Update.id).Nodup
  /-- Nobody else is updated there, and no other number is set. -/
  family : ∀ update ∈ entered.updates,
    update.id ∈ m.ids ∧ (update.id ≠ m.id → update.order = none)
  /-- Those below the member get a new parent just if they come to another root. -/
  rooted : ∀ x ∈ Forest.subtrees m.children,
    (∃ update ∈ entered.updates, update.id = x.id ∧ update.parent.isSome) ↔
      destination.root ≠ source.root

section

variable {w : Workspace} {m : Member}

/-- A drop that puts a member last somewhere has been a drop of this member. -/
theorem exists_family_of_joins {payload : Payload} {location : Location} {move : Move}
    {origin : Origin} {destination : Container}
    (classified : w.classify payload location = .ok move)
    (joins : move.joins? = some (origin, destination)) :
    move.destination? = some destination ∧ ∃ family, payload = .member family origin := by
  obtain ⟨_, _, -, -, -, ⟨root, rfl, accepted⟩ | ⟨family, origin', rfl, accepted⟩⟩ :=
    classify_eq_ok_iff.1 classified
  · obtain ⟨-, _, _, -, -, -, -, rfl⟩ := classifyRoot_eq_ok_iff.1 accepted
    cases joins
  · cases admits_of_classifyMember accepted with
    | within => cases joins
    | across => cases joins
    | intoMember | intoRoot =>
        cases joins
        exact ⟨rfl, family, rfl⟩

/-- What is planned where a member joins others at the end. -/
theorem Valid.exists_joins (valid : w.Valid) {payload : Payload} {location : Location} {move : Move}
    {origin : Origin} {destination : Container}
    (classified : w.classify payload location = .ok move)
    (joins : move.joins? = some (origin, destination)) :
    ∃ m before landing path r left entered, m.id = origin.member ∧ m ∈ before ∧
      w.members? origin.container = some before ∧ w.members? destination = some landing ∧
      w.path? destination = some path ∧ w.rearrange move = .ok r ∧ r.plans = [left, entered] ∧
      Joins m origin.container destination before landing path left entered := by
  obtain ⟨crosses, family, rfl⟩ := exists_family_of_joins classified joins
  obtain ⟨m, w', here, there, before, landing, index, named, crossing, enters, computed, outcome,
    -⟩ := valid.exists_transfer classified crosses
  obtain rfl : index = landing.length := by
    cases move with
    | intoMember | intoRoot => exact enters
    | within | across | ofRoot => cases joins
  obtain ⟨_, _, src⟩ := crossing.src
  obtain ⟨_, _, dst⟩ := crossing.dst
  have distinct := valid.nodup_present src
  have kept : Ordered.SameItems (Ordered.renumber (before.without m))
      (before.filter (·.id ≠ m.id)) :=
    (Ordered.SameItems.renumber _).trans (.of_perm ((Ordered.sorted_perm before).filter _))
  obtain ⟨updates, renumbers, left⟩ := Change.plan_renumbered_of_sublist origin.container []
    distinct kept List.filter_sublist
  have known : ∀ row ∈ Forest.rows landing destination ++ m.rows origin.container,
      row ∈ w.rows := by
    intro row inside
    rcases List.mem_append.1 inside with there | own
    · exact dst.mem_rows there
    · rw [Member.rows_eq] at own
      rcases List.mem_cons.1 own with rfl | below
      · exact src.mem_rows (Forest.row_mem_rows crossing.member _)
      · exact src.mem_rows (Forest.mem_rows_of_mem_children crossing.member below)
  have entered := Change.plan_joining (valid.dense_present dst) crossing.other
    (valid.consistent_children src crossing.member).2 there.path
    fun _ inR _ inS => valid.row_ext (known _ inR) (known _ inS)
  have single := Forest.nodup_ids_of_mem distinct crossing.member
  exact ⟨m, before, landing, there.path, _, _, _, named, crossing.member, src.members,
    dst.members, dst.path valid.paths, computed, congrArg₂ (fun a b => [a, b]) left entered, {
      leaves := rfl
      left_creates := rfl
      left_deletes := rfl
      left_updates := valid.updates_perm_of_without src crossing.member renumbers
      enters := rfl
      creates := rfl
      deletes := rfl
      updates := rfl
      once := Member.map_id_joiningAll_sublist.nodup single
      family := fun update inside =>
        ⟨Member.map_id_joiningAll_sublist.subset (List.mem_map_of_mem inside),
          Member.order_of_mem_joiningAll inside⟩
      rooted := fun x below => Member.exists_parent_iff single below }⟩

/-- All that is planned where a member is added. -/
theorem Valid.plans_of_add (valid : w.Valid) {container : Container} {name : String} {kind : Kind}
    {fresh : Id} (passed : w.checkInsert container name kind = .ok ()) (minted : fresh ∉ w.ids) :
    ∃ r siblings path, w.add container name kind fresh = .ok r ∧
      w.members? container = some siblings ∧ w.path? container = some path ∧
      r.plans = [{
        container
        creates := [{
          id := fresh, parent := container, name, kind
          order := siblings.length + 1
          path := path.child name }] }] := by
  obtain ⟨-, -, -, siblings, -, -, -, members, -⟩ := checkInsert_eq_ok_iff.1 passed
  obtain ⟨site, frame, put, window⟩ := exists_window members
  refine ⟨_, siblings, site.path, valid.add_eq_ok window name kind fresh, members,
    window.path valid.paths, ?_⟩
  have new : fresh ∉ Forest.ids siblings := fun inside =>
    minted (window.ids_perm.mem_iff.2 (List.mem_append_left _ inside))
  exact congrArg (fun batch => [batch])
    (Change.plan_fresh (valid.dense_present window) (valid.nodup_present window) new name kind _)

end

variable {w : Workspace}

/-- Whoever comes last disturbs nobody there.  A member that is added is created with the next
number, and one that joins others at the end takes the next number, while its former siblings close
the gap. -/
theorem Valid.lastPlaces_disturb_nobody (valid : w.Valid) :
    (∀ container name kind fresh, w.checkInsert container name kind = .ok () → fresh ∉ w.ids →
      ∃ r siblings path, w.add container name kind fresh = .ok r ∧
        w.members? container = some siblings ∧ w.path? container = some path ∧
        r.plans = [{
          container
          creates := [{
            id := fresh, parent := container, name, kind
            order := siblings.length + 1
            path := path.child name }] }]) ∧
    ∀ payload location move origin destination, w.classify payload location = .ok move →
      move.joins? = some (origin, destination) →
        ∃ m before landing path r left entered, m.id = origin.member ∧ m ∈ before ∧
          w.members? origin.container = some before ∧ w.members? destination = some landing ∧
          w.path? destination = some path ∧ w.rearrange move = .ok r ∧
          r.plans = [left, entered] ∧
          Joins m origin.container destination before landing path left entered :=
  ⟨fun _ _ _ _ => valid.plans_of_add, fun _ _ _ _ _ => valid.exists_joins⟩

open Reconciler in
/-- The note outside the folder of `noteTree` joins the one in it, and keeps its number since that
is the next one there; a note that is added to the folder gets the same. -/
theorem noteTree_lastPlaces :
    (∃ r, noteTree.add (.ofNode { bits := 1 } { bits := 2 }) "idea" .leaf (.ofRandom 5) = .ok r ∧
      r.plans.map (·.creates.map Row.order) = [[2]]) ∧
    ∃ r left entered, noteTree.rearrange (.intoMember looseNote (.ofNode { bits := 1 }
        { bits := 2 })) = .ok r ∧ r.plans = [left, entered] ∧ left.updates = [] ∧
      entered.updates = [{
        id := looseNote.member
        parent := some (.ofNode { bits := 1 } { bits := 2 })
        path := some ⟨["drafts", "todo"]⟩ }] := by
  obtain ⟨added, joined⟩ := noteTree_valid.lastPlaces_disturb_nobody
  constructor
  · obtain ⟨r, siblings, path, computed, members, -, plans⟩ :=
      added (.ofNode { bits := 1 } { bits := 2 }) "idea" .leaf (.ofRandom 5) (by decide) (by decide)
    obtain rfl := Option.some.inj ((rfl : noteTree.members? _ = _).symm.trans members)
    exact ⟨r, computed, by rw [plans]; rfl⟩
  · have classified : noteTree.classify (.member .treeNode looseNote) ontoFolder =
        .ok (.intoMember looseNote (.ofNode { bits := 1 } { bits := 2 })) := rfl
    obtain ⟨m, before, landing, path, r, left, entered, named, member, here, there, place,
      computed, plans, joins⟩ := joined _ _ _ _ _ classified rfl
    obtain rfl := Option.some.inj
      ((rfl : noteTree.members? looseNote.container = _).symm.trans here)
    obtain rfl := Option.some.inj ((rfl : noteTree.members? (.ofNode { bits := 1 } { bits := 2 }) =
      _).symm.trans there)
    obtain rfl := Option.some.inj ((rfl : noteTree.path? (.ofNode { bits := 1 } { bits := 2 }) =
      _).symm.trans place)
    rcases List.mem_cons.1 member with rfl | member
    · exact absurd named (by decide)
    obtain rfl := List.mem_singleton.1 member
    exact ⟨r, left, entered, computed, plans, List.perm_nil.1 joins.left_updates, joins.updates⟩

end Workspace

end Outline

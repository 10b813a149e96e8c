import Outline.Proofs.Moves
import Outline.Proofs.Renamings

/-!
# Operations

Every classified move and every allowed edit of a valid workspace can be computed and has an
outcome (`Outline.Workspace.Valid.exists_outcome_of_admits`,
`Outline.Workspace.Valid.exists_outcome_of_allowed`).  So does whatever was computed after its
check (`Outline.Workspace.Valid.outcome_of_computes`).
-/

namespace Outline

namespace Workspace

variable {w : Workspace}

/-- A member found in a container is listed in it. -/
theorem Valid.exists_window_of_locateAt? (valid : w.Valid) {container : Container} {id : Id}
    {found : Located} (located : w.locateAt? container id = some found) :
    ∃ present site frame put, w.Window container present site frame put ∧
      found.member ∈ present ∧ found.member.id = id := by
  obtain ⟨search, rfl⟩ := locateAt?_eq_some_iff.1 located
  obtain ⟨named, -, level, holds⟩ := holds_of_locateIn? search
  obtain ⟨present, members, -, member⟩ := valid.exists_members_of_holds holds
  obtain ⟨site, frame, put, window⟩ := exists_window members
  exact ⟨present, site, frame, put, window, member, named⟩

/-- Two members found in one container are siblings. -/
theorem Valid.exists_window_of_siblings (valid : w.Valid) {container : Container} {id target : Id}
    {source found : Located} (located : w.locateAt? container id = some source)
    (listed : w.locateAt? container target = some found) :
    ∃ present site frame put, w.Window container present site frame put ∧
      source.member ∈ present ∧ source.member.id = id ∧ target ∈ present.map Member.id := by
  obtain ⟨present, site, frame, put, window, member, named⟩ :=
    valid.exists_window_of_locateAt? located
  obtain ⟨present', site', frame', put', window', member', rfl⟩ :=
    valid.exists_window_of_locateAt? listed
  obtain rfl : present = present' := Option.some.inj (window.members.symm.trans window'.members)
  exact ⟨present, site, frame, put, window, member, named, List.mem_map_of_mem member'⟩

theorem Valid.exists_window_of_locate? (valid : w.Valid) {id : Id} {found : Located}
    (located : w.locate? id = some found) :
    ∃ present site frame put, w.Window found.container present site frame put ∧
      found.member ∈ present ∧ found.member.id = id := by
  obtain ⟨named, level, holds⟩ := holds_of_locate? valid.roots_distinct located
  obtain ⟨present, members, -, member⟩ := valid.exists_members_of_holds holds
  obtain ⟨site, frame, put, window⟩ := exists_window members
  exact ⟨present, site, frame, put, window, member, named⟩

section

variable {source destination : Container} {before landing : Forest} {here there : Site}
  {frameHere frameThere : List Level} {putHere putThere : Forest → Workspace} {m : Member}

/-- A leaf of a valid workspace has no children. -/
theorem Valid.children_eq_nil (valid : w.Valid)
    (src : w.Window source before here frameHere putHere) (member : m ∈ before)
    (leaf : m.kind = .leaf) : m.children = [] := by
  have own := valid.sound (src.mem_levels member (by rw [Member.levels_eq]; exact .head _))
  exact List.map_eq_nil_iff.1 (own.childless leaf)

/-- What is below a member stays sound in a root in which its family lands. -/
theorem Valid.sound_arrival (valid : w.Valid)
    (src : w.Window source before here frameHere putHere) (member : m ∈ before)
    {family : Family} {found : Located} (same : found.member = m)
    (described : family.describes here.shape found = true)
    (lands : family.landsIn there.shape = true) :
    ∀ level ∈ Forest.innerLevels [m.rebased there.path] there, level.Sound := by
  rw [Forest.innerLevels_singleton]
  cases family with
  | treeNode =>
      have tree : there.shape = .tree := of_decide_eq_true lands
      have below : ∀ level ∈ m.levels here, level.Sound := fun level inside =>
        valid.sound (src.mem_levels member inside)
      have sound := @Member.sound_rebased m here there m.name below fun n kind _ => by
        rw [tree]
        rfl
      rwa [Member.mk_eta] at sound
  | listItem =>
      have leaf : m.kind = .leaf := by
        have both := Bool.and_eq_true_iff.1 described
        exact same ▸ of_decide_eq_true both.1
      have childless : ∀ x ∈ [m.rebased there.path], x.children = [] := by
        refine List.forall_mem_singleton.2 ?_
        rw [Member.children_rebased, valid.children_eq_nil src member leaf]
        rfl
      intro level inside
      have listed : level ∈ Forest.innerLevels [m.rebased there.path] there := by
        rwa [Forest.innerLevels_singleton]
      exact Level.sound_of_empty (Forest.members_of_childless childless listed)
  | group => cases lands

/-- A welcomed member has an outcome in its new container, wherever it is put. -/
theorem Valid.outcome_of_welcomes (valid : w.Valid)
    (src : w.Window source before here frameHere putHere) (member : m ∈ before)
    (dst : w.Window destination landing there frameThere putThere) {family : Family}
    {found : Located} (same : found.member = m) (other : destination ≠ source)
    (described : ∃ shape, w.shape? source = some shape ∧ family.describes shape found = true)
    {siblings : Forest} (welcome : w.Welcomes family m destination siblings) (index : Nat) :
    ∃ w' frame, w.Outcome (transfer source destination before landing m there.path index) w' ∧
      w.Relocated w' m here there before landing index frame := by
  obtain ⟨shape, shaped, describes⟩ := described
  obtain rfl : here.shape = shape := Option.some.inj (src.shape.symm.trans shaped)
  obtain ⟨shape, depth, shaped, deep, lands, accepted⟩ := welcome.fits
  obtain rfl : there.shape = shape := Option.some.inj (dst.shape.symm.trans shaped)
  obtain rfl : there.depth = depth := Option.some.inj (dst.depth.symm.trans deep)
  obtain rfl : landing = siblings := Option.some.inj (dst.members.symm.trans welcome.members)
  refine valid.outcome_transfer src dst member other welcome.acyclic accepted
    (valid.sound_arrival src member same describes lands) (fun s inside => ?_) index
  refine welcome.apart s inside fun clash => other ?_
  have row := valid.row_ext (dst.mem_rows (Forest.row_mem_rows inside destination))
    (src.mem_rows (Forest.row_mem_rows member source)) clash
  exact congrArg Row.parent row

end

/-- A member that moves into a container comes last there. -/
theorem Valid.exists_outcome_of_combine (valid : w.Valid) {family : Family} {origin : Origin}
    {source : Located} {destination : Container} {siblings : Forest}
    (located : w.locateAt? origin.container origin.member = some source)
    (described : ∃ shape, w.shape? origin.container = some shape ∧
      family.describes shape source = true)
    (other : destination ≠ origin.container)
    (welcome : w.Welcomes family source.member destination siblings) :
    ∃ r w', w.combine origin destination = .ok r ∧ w.Outcome r w' ∧ w'.ids.Perm w.ids ∧
      (w.Ascending → ∃ m : Member, m.id = origin.member ∧
        w.Moved w' m origin.container destination fun _ back => back = []) := by
  obtain ⟨container, id⟩ := origin
  obtain ⟨before, here, frameHere, putHere, src, member, rfl⟩ :=
    valid.exists_window_of_locateAt? located
  obtain ⟨there, frameThere, putThere, dst⟩ := exists_window welcome.members
  obtain ⟨w', frame, outcome, relocated⟩ :=
    valid.outcome_of_welcomes src member dst rfl other described welcome siblings.length
  have ids := relocated.ids_perm (Forest.nodup_map_id (valid.nodup_present src)) member
  refine ⟨_, w', valid.combine_eq_ok src dst member, outcome, ids, fun ascending => ?_⟩
  refine ⟨source.member, rfl, relocated.moved valid ascending outcome.valid src dst member ?_⟩
  rw [List.drop_length]
  rfl

/-- A member that moves beside one of its siblings stays in its container. -/
theorem Valid.exists_outcome_of_within (valid : w.Valid) {origin : Origin} {source found : Located}
    {target : Id} (side : Side) (located : w.locateAt? origin.container origin.member = some source)
    (listed : w.locateAt? origin.container target = some found) (other : target ≠ origin.member) :
    ∃ r w', w.rearrange (.within origin target side) = .ok r ∧ w.Outcome r w' ∧
      w'.ids.Perm w.ids ∧ (w.Ascending → w.Leads w' (.within origin target side)) := by
  obtain ⟨container, id⟩ := origin
  obtain ⟨present, site, frame, put, window, member, rfl, beside⟩ :=
    valid.exists_window_of_siblings located listed
  obtain ⟨front, back, split, borders, computed⟩ :=
    valid.rearrange_within window member beside other side
  have distinct := Forest.nodup_map_id (valid.nodup_present window)
  have perm : (front ++ source.member :: back).Perm present :=
    Ordered.perm_of_without (α := Member) distinct member split
  have kept : present.Perm (front ++ source.member :: back ++ []) := by
    rw [List.append_nil]
    exact perm.symm
  have outcome := valid.outcome_remaining window kept (.refl (Forest.ids []))
  have ids : (put (Ordered.renumber (front ++ source.member :: back))).ids.Perm w.ids := by
    refine (window.put_ids_perm _).trans (.trans (.append_right _ ?_) window.ids_perm.symm)
    rw [Forest.ids_renumber]
    exact Forest.ids_perm perm
  refine ⟨_, _, computed, outcome, ids, fun ascending => ⟨source.member, rfl, ?_⟩⟩
  exact window.moved_within valid ascending member split outcome.valid borders

/-- A member that moves beside a member of another container comes to it. -/
theorem Valid.exists_outcome_of_across (valid : w.Valid) {family : Family} {origin : Origin}
    {source found : Located} {destination : Container} {target : Id} {siblings : Forest}
    (side : Side) (located : w.locateAt? origin.container origin.member = some source)
    (described : ∃ shape, w.shape? origin.container = some shape ∧
      family.describes shape source = true)
    (listed : w.locateAt? destination target = some found)
    (other : destination ≠ origin.container)
    (welcome : w.Welcomes family source.member destination siblings) :
    ∃ r w', w.rearrange (.across origin destination target side) = .ok r ∧ w.Outcome r w' ∧
      w'.ids.Perm w.ids ∧ (w.Ascending → w.Leads w' (.across origin destination target side)) := by
  obtain ⟨container, id⟩ := origin
  obtain ⟨before, here, frameHere, putHere, src, member, rfl⟩ :=
    valid.exists_window_of_locateAt? located
  obtain ⟨landing, there, frameThere, putThere, dst, member', rfl⟩ :=
    valid.exists_window_of_locateAt? listed
  obtain ⟨index, borders, computed⟩ :=
    valid.rearrange_across src dst member (List.mem_map_of_mem member') side
  obtain ⟨w', frame, outcome, relocated⟩ :=
    valid.outcome_of_welcomes src member dst rfl other described welcome index
  have ids := relocated.ids_perm (Forest.nodup_map_id (valid.nodup_present src)) member
  refine ⟨_, w', computed, outcome, ids, fun ascending => ⟨source.member, rfl, ?_⟩⟩
  have sorts : Ordered.sorted landing = landing :=
    Ordered.sorted_eq_of_perm (.refl _) (dst.ascending_present ascending)
  rw [sorts] at borders
  exact relocated.moved valid ascending outcome.valid src dst member borders

/-- A root that moves beside another comes next to it. -/
theorem Valid.exists_outcome_of_reorder (valid : w.Valid) {root target : Id} (side : Side)
    (present : (w.root? root).isSome) (listed : (w.root? target).isSome) (other : target ≠ root) :
    ∃ r w', w.rearrange (.ofRoot root target side) = .ok r ∧ w.Outcome r w' ∧
      w'.ids.Perm w.ids ∧ (w.Ascending → w.Leads w' (.ofRoot root target side)) := by
  obtain ⟨r, found⟩ := Option.isSome_iff_exists.1 present
  obtain ⟨t, found'⟩ := Option.isSome_iff_exists.1 listed
  have member := List.mem_of_find?_eq_some found
  obtain rfl : r.id = root := by simpa using List.find?_some found
  obtain rfl : t.id = target := by simpa using List.find?_some found'
  obtain ⟨front, back, perm, split, borders, reordered⟩ := valid.exists_reordered member
    (List.mem_map_of_mem (List.mem_of_find?_eq_some found')) other side
  refine ⟨_, _, ?_, valid.outcome_reordered perm, ids_renumber perm, fun ascending =>
    rootMoved_renumber ascending perm split borders⟩
  simp only [rearrange, bind, Except.bind, reordered]
  rfl

/-- Every admitted move can be computed, has an outcome and leads where it says. -/
theorem Valid.exists_outcome_of_admits (valid : w.Valid) {payload : Payload} {move : Move}
    (admits : w.Admits payload move) : ∃ r w', w.rearrange move = .ok r ∧ w.Outcome r w' ∧
      w'.ids.Perm w.ids ∧ (w.Ascending → w.Leads w' move) := by
  cases admits with
  | within side located listed other =>
      exact valid.exists_outcome_of_within side located listed other
  | across side located described listed other welcome =>
      exact valid.exists_outcome_of_across side located described listed other welcome
  | intoMember located described other welcome =>
      exact valid.exists_outcome_of_combine located described other welcome
  | intoRoot located described other welcome =>
      exact valid.exists_outcome_of_combine located described other welcome
  | ofRoot side present listed other =>
      exact valid.exists_outcome_of_reorder side present listed other

end Workspace

/-- Whether the rules allow an edit. -/
def Edit.Allowed (edit : Edit) (w : Workspace) : Prop :=
  match edit with
  | .add container name kind => w.checkInsert container name kind = .ok ()
  | .rename member name => ∃ container, w.checkRename member name = .ok container
  | .delete member => (w.locate? member).isSome

namespace Workspace

variable {w : Workspace}

/-- The identifier that an edit mints is new to the workspace. -/
def Mints (w : Workspace) (edit : Edit) (fresh : Id) : Prop :=
  ∀ id, edit.created? fresh = some id → id ∉ w.ids

theorem mints_of_not_mem {edit : Edit} {fresh : Id} (new : fresh ∉ w.ids) : w.Mints edit fresh := by
  intro id minted
  cases edit with
  | add => exact Option.some.inj minted ▸ new
  | rename => cases minted
  | delete => cases minted

/-- Whatever has been computed for an edit was allowed. -/
theorem allowed_of_compute {edit : Edit} {fresh : Id} {r : Rearrangement}
    (computed : edit.compute fresh w = .ok r) : edit.Allowed w := by
  cases edit with
  | add container name kind =>
      rw [Edit.compute] at computed
      split at computed
      next => cases computed
      next passed => exact passed
  | rename member name =>
      rw [Edit.compute] at computed
      split at computed
      next => cases computed
      next container passed => exact ⟨container, passed⟩
  | delete member =>
      rw [Edit.compute, delete] at computed
      cases located : w.locate? member with
      | none =>
          rw [located] at computed
          cases computed
      | some found =>
          change (w.locate? member).isSome
          rw [located]
          rfl

/-- An added member comes last. -/
theorem Valid.exists_outcome_of_add (valid : w.Valid) {container : Container} {name : String}
    {kind : Kind} {fresh : Id} (allowed : w.checkInsert container name kind = .ok ())
    (minted : fresh ∉ w.ids) :
    ∃ r w', w.add container name kind fresh = .ok r ∧ w.Outcome r w' := by
  obtain ⟨-, shape, depth, siblings, shaped, deep, accepted, members, apart⟩ :=
    checkInsert_eq_ok_iff.1 allowed
  obtain ⟨site, frame, put, window⟩ := exists_window members
  obtain rfl : site.shape = shape := Option.some.inj (window.shape.symm.trans shaped)
  obtain rfl : site.depth = depth := Option.some.inj (window.depth.symm.trans deep)
  have names := (Forest.sound_iff.1 (valid.sound window.level_mem)).2.1
  refine ⟨_, put (Ordered.insertAt siblings (.fresh fresh name 0 kind site.path) siblings.length),
    valid.add_eq_ok window name kind fresh, ?_⟩
  have split : siblings.Perm (siblings ++ []) := .of_eq (List.append_nil _).symm
  refine valid.outcome_renumber window split
    (Ordered.perm_insertion siblings (.fresh fresh name 0 kind site.path) siblings.length)
    ?_ ?_ ?_ ?_ ?_ (.refl _)
  · rw [List.map_append]
    refine List.nodup_append.2 ⟨names, List.nodup_singleton _, ?_⟩
    rintro _ inside _ new rfl
    obtain ⟨s, member, same⟩ := List.mem_map.1 inside
    exact apart s member (same.trans (List.mem_singleton.1 new))
  · exact List.forall_mem_singleton.2 rfl
  · exact List.forall_mem_singleton.2 accepted
  · exact List.forall_mem_singleton.2 rfl
  · exact List.nodup_cons.2 ⟨minted, valid.members_distinct⟩

theorem Valid.exists_outcome_of_rename (valid : w.Valid) {member : Id} {name : String}
    {container : Container} (allowed : w.checkRename member name = .ok container) :
    ∃ r w', w.rename member name = .ok r ∧ w.Outcome r w' := by
  obtain ⟨-, found, siblings, located, rfl, members, apart⟩ := checkRename_eq_ok_iff.1 allowed
  obtain ⟨site, frame, put, window⟩ := exists_window members
  exact ⟨_, _, valid.rename_eq_ok window located rfl name, valid.outcome_renamed window apart⟩

theorem Valid.exists_outcome_of_delete (valid : w.Valid) {member : Id}
    (allowed : (w.locate? member).isSome) :
    ∃ r w', w.delete member = .ok r ∧ w.Outcome r w' := by
  obtain ⟨found, located⟩ := Option.isSome_iff_exists.1 allowed
  obtain ⟨present, site, frame, put, window, listed, rfl⟩ :=
    valid.exists_window_of_locate? located
  have distinct := Forest.nodup_map_id (valid.nodup_present window)
  refine ⟨_, put (Ordered.renumber (present.without found.member)),
    valid.delete_eq_ok window listed located rfl, ?_⟩
  apply valid.outcome_remaining window (Forest.perm_without distinct listed)
  exact .of_eq (Forest.ids_singleton found.member).symm

/-- Every allowed edit can be computed and has an outcome. -/
theorem Valid.exists_outcome_of_allowed (valid : w.Valid) {edit : Edit} {fresh : Id}
    (allowed : edit.Allowed w) (minted : w.Mints edit fresh) :
    ∃ r w', edit.compute fresh w = .ok r ∧ w.Outcome r w' := by
  cases edit with
  | add container name kind =>
      have passed : w.checkInsert container name kind = .ok () := allowed
      obtain ⟨r, w', computed, outcome⟩ := valid.exists_outcome_of_add passed (minted fresh rfl)
      exact ⟨r, w', by rw [Edit.compute, passed, computed]; rfl, outcome⟩
  | rename member name =>
      obtain ⟨container, passed⟩ := allowed
      obtain ⟨r, w', computed, outcome⟩ := valid.exists_outcome_of_rename passed
      exact ⟨r, w', by rw [Edit.compute, passed, computed]; rfl, outcome⟩
  | delete member =>
      obtain ⟨r, w', computed, outcome⟩ := valid.exists_outcome_of_delete allowed
      exact ⟨r, w', by rw [Edit.compute, computed]; rfl, outcome⟩

/-- What is computed from a workspace for a classified drop, or for an edit after its check. -/
inductive Computes (w : Workspace) : Rearrangement → Prop where
  | drop {payload location move r} (classified : w.classify payload location = .ok move)
      (computed : w.rearrange move = .ok r) : Computes w r
  | edit {edit fresh r} (minted : w.Mints edit fresh)
      (computed : edit.compute fresh w = .ok r) : Computes w r

/-- Whatever is computed from a valid workspace has an outcome. -/
theorem Valid.outcome_of_computes (valid : w.Valid) {r : Rearrangement} (computes : w.Computes r) :
    ∃ w', w.Outcome r w' := by
  cases computes with
  | drop classified computed =>
      obtain ⟨r', w', same, outcome, -, -⟩ :=
        valid.exists_outcome_of_admits (admits_of_classify classified)
      obtain rfl := Except.ok.inj (same.symm.trans computed)
      exact ⟨w', outcome⟩
  | edit minted computed =>
      obtain ⟨r', w', same, outcome⟩ :=
        valid.exists_outcome_of_allowed (allowed_of_compute computed) minted
      obtain rfl := Except.ok.inj (same.symm.trans computed)
      exact ⟨w', outcome⟩

end Workspace

end Outline

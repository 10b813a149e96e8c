import Outline.Proofs.Crossings
import Outline.Proofs.Modifications
import Outline.Proofs.Reconciliation

/-!
# Patches in either sequence

A move between containers changes two lists, and either of the containers may be nested in the
other.  If the list of the destination is put in place first, the member is in both lists for a
while, with all below it.  Still no identifier occurs twice but those, so that the source is found,
and each list keeps what stands below its members at that time.  The two patches therefore come to
the same in either sequence (`Outline.Workspace.Valid.patches_commute`).
-/

namespace Outline

namespace Forest

variable {node : Id} {f : Forest → Forest} {ms : Forest} {path : Path}

theorem consistent_renumber (consistent : Consistent ms path) :
    Consistent (Ordered.renumber ms) path := by
  refine consistent_iff.2 fun m member => ?_
  obtain ⟨x, inside, n, rfl⟩ := Ordered.mem_renumber member
  exact consistent_iff.1 consistent x inside

/-- A change in place keeps the paths derived, if what it puts in place has its paths derived. -/
theorem consistent_modify (consistent : Consistent ms path)
    (keeps : ∀ m ∈ subtrees ms, m.id = node → Consistent (f m.children) m.path) :
    Consistent (modify node f ms) path := by
  induction ms using Forest.induct generalizing path with
  | nil => exact consistent_nil path
  | cons m ms inner later =>
      rw [subtrees_cons, List.forall_mem_cons, List.forall_mem_append] at keeps
      obtain ⟨here, below, after⟩ := keeps
      obtain ⟨own, children, rest⟩ := consistent_cons.1 consistent
      rw [modify, Member.modify_eq]
      refine consistent_cons.2 ⟨own, ?_, later rest after⟩
      dsimp only
      split
      next named => exact own ▸ here named
      next => exact inner children below

theorem modify_renumber (node : Id) (f : Forest → Forest) (ms : Forest) :
    modify node f (Ordered.renumber ms) = Ordered.renumber (modify node f ms) := by
  rw [modify_eq_map, modify_eq_map]
  refine Ordered.map_renumber fun m _ n => ?_
  rw [Member.modify_eq, Member.modify_eq]
  rfl

/-- A list is put in place of one that has been changed below as it would be before the change. -/
theorem patched_modify {present list : Forest} (distinct : (present.map Member.id).Nodup)
    (listed : (list.map Member.id).Nodup) (consistent : Consistent (modify node f present) path)
    (own : ∀ m ∈ list, m ∈ present ∨ m.id ∉ present.map Member.id ∧ node ∉ m.ids) :
    patched (modify node f present) (Ordered.renumber list) =
      modify node f (Ordered.renumber list) := by
  have distinct' : ((modify node f present).map Member.id).Nodup := by rwa [map_id_modify]
  rw [patched_renumber distinct' listed, modify_renumber, modify_eq_map node f list]
  refine congrArg _ (List.map_congr_left fun m member => ?_)
  rcases own m member with known | ⟨unknown, outside⟩
  · have changed : m.modify node f ∈ modify node f present := by
      rw [modify_eq_map]
      exact List.mem_map_of_mem known
    obtain ⟨path, children⟩ := consistent_iff.1 consistent _ changed
    rw [Member.settled_of_mem distinct' changed (m.id_modify node f)]
    rw [Member.modify_eq] at path children ⊢
    dsimp only at path children ⊢
    rw [path, children]
  · have still : m.modify node f = m := by
      rw [Member.ids_eq, List.mem_cons, not_or] at outside
      rw [Member.modify_eq, if_neg (Ne.symm outside.1), modify_of_not_mem outside.2, Member.mk_eta]
    rw [still, Member.settled_of_not_mem (by rwa [map_id_modify])]

end Forest

theorem Root.modify_comm {root : Root} {first second : Container} {f g : Forest → Forest}
    (below : root.id = first.root → root.id = second.root →
      Forest.modifyAt first.node f (Forest.modifyAt second.node g root.members) =
        Forest.modifyAt second.node g (Forest.modifyAt first.node f root.members)) :
    (root.modify second g).modify first f = (root.modify first f).modify second g := by
  unfold Root.modify
  by_cases here : root.id = first.root
  · by_cases there : root.id = second.root
    · simp only [if_pos here, if_pos there, Root.withMembers, below here there]
    · simp only [if_pos here, if_neg there, Root.withMembers]
  · simp only [if_neg here, apply_ite Root.id, Root.withMembers, ite_self]

namespace Workspace

variable {w : Workspace} {f g : Forest → Forest}

section

variable (roots : (w.roots.map Root.id).Nodup) (members : w.ids.Nodup)

include roots members

/-- Of the members below a list, the one that owns another list is called as its container. -/
theorem Owns.exists_owner {site there : Site} {owner kind : Kind} {ms landing : Forest} {x : Member}
    (owns : w.Owns site owner ms) (inside : x ∈ Forest.subtrees ms)
    (target : w.Owns there kind landing)
    (called : there.container = .ofNode site.container.root x.id) :
    ∃ place, w.Stands x place ∧ there = place.below x.id x.name ∧ x.children = landing := by
  obtain ⟨place, stands, root⟩ := owns.exists_stands (fun _ member => member) inside
  obtain ⟨_, _, listing, listed⟩ := id stands
  have same : there.container = (place.below x.id x.name).container := by
    rw [called, Site.below, root]
  obtain ⟨site, children⟩ := target.ext roots members (listing.member listed) same
  exact ⟨place, stands, site, children.symm⟩

/-- Changes of two containers can be made in either sequence, if each of them can be made before or
after the other one where that is nested in it. -/
theorem modify_comm {here there : Site} {before landing : Forest}
    (src : w.Owns here .interior before) (dst : w.Owns there .interior landing)
    (other : there.container ≠ here.container)
    (atSource : ∀ node, there.container = .ofNode here.container.root node →
      f (Forest.modify node g before) = Forest.modify node g (f before))
    (atDestination : ∀ node, here.container = .ofNode there.container.root node →
      g (Forest.modify node f landing) = Forest.modify node f (g landing)) :
    (w.modify there.container g).modify here.container f =
      (w.modify here.container f).modify there.container g := by
  simp only [modify, List.map_map]
  refine congrArg Workspace.mk (List.map_congr_left fun r listed => ?_)
  refine Root.modify_comm fun ofHere ofThere => ?_
  have top := Owns.root listed
  -- The lists that the root holds, as a list of its own or below it.
  have whole : ∀ {site : Site} {ms : Forest}, w.Owns site .interior ms →
      site.container = ⟨r.id, none⟩ → r.members = ms := fun owns same =>
    (top.ext roots members owns same.symm).2
  have below : ∀ {site : Site} {ms : Forest} {node : Id}, w.Owns site .interior ms →
      site.container = ⟨r.id, some node⟩ → ∀ x ∈ Forest.subtrees r.members, x.id = node →
        x.children = ms := by
    rintro site ms _ owns same x inside rfl
    obtain ⟨-, -, -, children⟩ := top.exists_owner roots members inside owns same
    exact children
  have split : ∀ {c : Container} {node : Option Id}, r.id = c.root → c.node = node →
      c = ⟨r.id, node⟩ := by
    rintro ⟨_, _⟩ _ rfl rfl
    rfl
  cases nodeHere : here.container.node with
  | none =>
      have source := split ofHere nodeHere
      cases nodeThere : there.container.node with
      | none => exact absurd ((split ofThere nodeThere).trans source.symm) other
      | some node =>
          rw [whole src source]
          exact atSource node ((split ofThere nodeThere).trans (by rw [source]; rfl))
  | some first =>
      have source := split ofHere nodeHere
      cases nodeThere : there.container.node with
      | none =>
          have destination := split ofThere nodeThere
          rw [whole dst destination]
          exact (atDestination first (source.trans (by rw [destination]; rfl))).symm
      | some second =>
          have destination := split ofThere nodeThere
          refine Forest.modify_comm ?_ (fun x inside named => ?_) (fun x inside named => ?_)
          · rintro rfl
            exact other (destination.trans source.symm)
          · rw [below src source x inside named]
            exact atSource second (destination.trans (by rw [source]; rfl))
          · rw [below dst destination x inside named]
            exact atDestination first (source.trans (by rw [destination]; rfl))

end

namespace Valid

variable (valid : w.Valid)

include valid

section

variable {site there : Site} {ms landing list : Forest} {node : Id}
  (owns : w.Owns site .interior ms) (target : w.Owns there .interior landing)
  (called : there.container = .ofNode site.container.root node)
  (keeps : Forest.Consistent (f landing) there.path)

include owns target called keeps

/-- The paths around a list are still derived when it changes and has its own derived. -/
theorem consistent_modify : Forest.Consistent (Forest.modify node f ms) site.path := by
  obtain ⟨_, _, window⟩ := owns.exists_window valid.roots_distinct valid.members_distinct
  refine Forest.consistent_modify (valid.consistent window) ?_
  rintro x inside rfl
  obtain ⟨place, ⟨_, _, listing, listed⟩, rfl, rfl⟩ :=
    owns.exists_owner valid.roots_distinct valid.members_distinct inside target called
  have path : x.path = place.path.child x.name :=
    valid.paths _ listing.level_mem x.shallow (List.mem_map_of_mem listed)
  exact path ▸ keeps

/-- A list of members and newcomers can be put in place before or after a change below it. -/
theorem patched_modify (listed : (list.map Member.id).Nodup)
    (own : ∀ m ∈ list, m ∈ ms ∨ m.id ∉ ms.map Member.id ∧ node ∉ m.ids) :
    Forest.patched (Forest.modify node f ms) (Ordered.renumber list) =
      Forest.modify node f (Forest.patched ms (Ordered.renumber list)) := by
  obtain ⟨_, _, window⟩ := owns.exists_window valid.roots_distinct valid.members_distinct
  rw [valid.patched_renumber window listed fun m member => (own m member).imp id And.left]
  exact Forest.patched_modify (Forest.nodup_map_id (valid.nodup_present window)) listed
    (valid.consistent_modify owns target called keeps) own

end

/-- Where members and newcomers are put in place, all paths are derived. -/
theorem consistent_patched {container : Container} {present list : Forest} {site : Site}
    {frame : List Level} {put : Forest → Workspace}
    (window : w.Window container present site frame put) (listed : (list.map Member.id).Nodup)
    (own : ∀ m ∈ list, m ∈ present ∨ m.id ∉ present.map Member.id ∧
      Forest.Consistent [m] site.path) :
    Forest.Consistent (Forest.patched present (Ordered.renumber list)) site.path := by
  rw [valid.patched_renumber window listed fun m member => (own m member).imp id And.left]
  refine Forest.consistent_renumber (Forest.consistent_iff.2 fun m member => ?_)
  rcases own m member with known | ⟨-, derived⟩
  · exact Forest.consistent_iff.1 (valid.consistent window) m known
  · exact Forest.consistent_iff.1 derived m (.head _)

section

variable {source destination : Container} {before landing list : Forest} {here there : Site}
  {frameHere frameThere : List Level} {putHere putThere : Forest → Workspace} {m : Member}
  (src : w.Window source before here frameHere putHere)
  (dst : w.Window destination landing there frameThere putThere) (member : m ∈ before)
  (other : destination ≠ source)

include src dst member other

theorem not_mem_landing : m.id ∉ landing.map Member.id := by
  intro inside
  obtain ⟨x, listed, same⟩ := List.mem_map.1 inside
  refine other ?_
  rw [← src.container_eq, ← dst.container_eq]
  exact (valid.stands_of_window dst listed).container_ext valid.members_distinct
    (valid.stands_of_window src member) same

section

variable (listed : list.Perm (landing ++ [m.rebased there.path]))

include listed

/-- The list that the member is put into has no member twice, and the member as a newcomer. -/
theorem newcomer_of_put_in : (list.map Member.id).Nodup ∧ ∀ x ∈ list,
    x ∈ landing ∨ x.id ∉ landing.map Member.id ∧ x = m.rebased there.path := by
  have absent : (m.rebased there.path).id ∉ landing.map Member.id := by
    rw [Member.id_rebased]
    exact valid.not_mem_landing src dst member other
  constructor
  · rw [(listed.map _).nodup_iff, List.map_append, List.map_singleton,
      (List.perm_append_singleton ..).nodup_iff]
    exact List.nodup_cons.2 ⟨absent, Forest.nodup_map_id (valid.nodup_present dst)⟩
  · intro x inside
    rcases List.mem_append.1 (listed.mem_iff.1 inside) with known | new
    · exact .inl known
    · obtain rfl := List.mem_singleton.1 new
      exact .inr ⟨absent, rfl⟩

theorem patched_put_in :
    Forest.patched landing (Ordered.renumber list) = Ordered.renumber list := by
  obtain ⟨nodup, enters⟩ := valid.newcomer_of_put_in src dst member other listed
  exact valid.patched_renumber dst nodup fun x inside => (enters x inside).imp id And.left

/-- The source can still be looked up while the member is in both lists. -/
theorem exists_members_of_put_in :
    (putThere (Ordered.renumber list)).HasOnce source ∧
      ∃ ms, (putThere (Ordered.renumber list)).members? source = some ms := by
  have once : (putThere (Ordered.renumber list)).HasOnce source := by
    intro node own
    have ids : (putThere (Ordered.renumber list)).ids.Perm (w.ids ++ m.ids) := by
      refine (dst.put_ids_perm _).trans ?_
      rw [Forest.ids_renumber]
      refine ((Forest.ids_perm listed).append_right _).trans ?_
      rw [Forest.ids_append, Forest.ids_singleton, Member.ids_rebased, List.append_assoc]
      refine (List.perm_append_comm.append_left _).trans ?_
      rw [← List.append_assoc]
      exact dst.ids_perm.symm.append_right _
    have absent : m.ids.count node = 0 :=
      List.count_eq_zero.2 (valid.not_mem_ids_of_window src member own)
    rw [ids.count_eq, List.count_append, absent]
    exact List.nodup_iff_count_le_one.1 valid.members_distinct node
  have level : here.level before ∈ (putThere (Ordered.renumber list)).levels := by
    have split : landing.Perm (landing ++ []) := by rw [List.append_nil]
    have inside := (dst.levels_split split).mem_iff.1 src.level_mem
    refine (dst.levels_renumber listed).mem_iff.2 (.tail _ ?_)
    rcases List.mem_cons.1 inside with same | elsewhere
    · have containers := congrArg Level.container same
      exact absurd (dst.container_eq.symm.trans (containers.symm.trans src.container_eq)) other
    · rw [Forest.innerLevels, List.append_nil] at elsewhere
      rcases List.mem_append.1 elsewhere with below | outside
      · exact List.mem_append_left _ (List.mem_append_left _ below)
      · exact List.mem_append_right _ outside
  have roots : ((putThere (Ordered.renumber list)).roots.map Root.id).Nodup := by
    rw [map_roots_eq (fun _ => rfl) (dst.put_roots _)]
    exact valid.roots_distinct
  refine ⟨once, ?_⟩
  rw [← src.container_eq] at once ⊢
  obtain ⟨ms, found, -⟩ :=
    @HasOnce.exists_members_of_level _ roots (here.level before) once level rfl
  exact ⟨ms, found⟩

/-- A member may be put into one list before or after it is taken out of another one. -/
theorem modify_comm_of_put_in :
    let taken := (Forest.patched · (Ordered.renumber (before.without m)))
    let entered := (Forest.patched · (Ordered.renumber list))
    (w.modify destination entered).modify source taken =
      (w.modify source taken).modify destination entered := by
  have owns := src.owns valid.members_distinct
  have owns' := dst.owns valid.members_distinct
  have nodup := Forest.nodup_without (Forest.nodup_map_id (valid.nodup_present src)) m
  have stay : ∀ x ∈ before.without m, x ∈ before := fun x inside => (Forest.mem_without.1 inside).1
  obtain ⟨nodup', enters⟩ := valid.newcomer_of_put_in src dst member other listed
  have derived := valid.consistent_patched src nodup fun x inside => .inl (stay x inside)
  have derived' := valid.consistent_patched dst nodup' fun x inside => (enters x inside).imp id (by
    rintro ⟨absent, rfl⟩
    exact ⟨absent, Forest.consistent_rebased [m] there.path⟩)
  obtain rfl := src.container_eq
  obtain rfl := dst.container_eq
  refine modify_comm valid.roots_distinct valid.members_distinct owns owns' other ?_ ?_
  · exact fun node below => valid.patched_modify owns owns' below derived' nodup fun x inside =>
      .inl (stay x inside)
  · intro node below
    refine valid.patched_modify owns' owns below derived nodup' fun x inside =>
      (enters x inside).imp id ?_
    rintro ⟨absent, rfl⟩
    refine ⟨absent, ?_⟩
    rw [Member.ids_rebased]
    exact valid.not_mem_ids_of_window src member (by rw [below]; rfl)

/-- The patches of two lists come to the same in either sequence. -/
theorem patches_of_put_in {w' : Workspace} (carried :
      (w.patch source (Ordered.renumber (before.without m)) >>= fun between =>
        between.patch destination (Ordered.renumber list)) = .ok w') :
    (w.patch destination (Ordered.renumber list) >>= fun between =>
      between.patch source (Ordered.renumber (before.without m))) = .ok w' := by
  have commutes := valid.modify_comm_of_put_in src dst member other listed
  have inPlace : ∀ {container : Container} {present : Forest}, w.members? container = some present →
      ∀ after, w.patch container after = .ok (w.modify container (Forest.patched · after)) :=
    patch_eq_modify_patched valid.roots_distinct (hasOnce_of_nodup valid.members_distinct _)
  have roots : ∀ {container : Container} {f : Forest → Forest},
      ((w.modify container f).roots.map Root.id).Nodup := by
    intro container f
    rw [map_roots_eq (fun _ => rfl) map_shallow_modify]
    exact valid.roots_distinct
  obtain ⟨out, valid₁, -⟩ := valid.take_out src member
  rw [inPlace src.members, Except.ok.injEq] at out
  have entered := dst.patch (Ordered.renumber list)
  rw [valid.patched_put_in src dst member other listed, inPlace dst.members,
    Except.ok.injEq] at entered
  obtain ⟨once, left, found⟩ := valid.exists_members_of_put_in src dst member other listed
  rw [← out] at valid₁
  rw [← entered] at once found
  rw [inPlace src.members] at carried
  rw [inPlace dst.members]
  change Workspace.patch _ destination _ = _ at carried
  change Workspace.patch _ source _ = _
  rw [patch_eq_modify_patched roots once found, commutes, ← carried]
  -- The destination is found in the first sequence, or else that one would have failed.
  cases there : (w.modify source (Forest.patched · (Ordered.renumber (before.without m)))).members?
    destination with
  | none =>
      rw [patch_eq_error there] at carried
      cases carried
  | some present =>
      exact (patch_eq_modify_patched roots (hasOnce_of_nodup valid₁.members_distinct _) there
        _).symm

end

end

/-- A move between containers changes two lists.  Put in place one after the other, in either
sequence, they lead to the workspace that the move leads to, whichever of the containers is nested
in the other. -/
theorem patches_commute {payload : Payload} {location : Location} {move : Move}
    {destination : Container} (classified : w.classify payload location = .ok move)
    (crosses : move.destination? = some destination) :
    ∃ planned source target w', w.rearrange move = .ok planned ∧
      planned.changes = [source, target] ∧
      move.containers = [source.container, target.container] ∧
      target.container = destination ∧ planned.carryOut w = .ok w' ∧
      (w.patch source.container source.after >>= fun between =>
        between.patch target.container target.after) = .ok w' ∧
      (w.patch target.container target.after >>= fun between =>
        between.patch source.container source.after) = .ok w' := by
  cases payload with
  | root =>
      cases admits_of_classify classified with
      | ofRoot => cases crosses
  | member family origin =>
      obtain ⟨m, w', here, there, before, landing, index, -, crossing, -, computed, outcome, -⟩ :=
        valid.exists_transfer classified crosses
      obtain ⟨_, _, src⟩ := crossing.src
      obtain ⟨_, _, dst⟩ := crossing.dst
      have inserted := Ordered.perm_insertion landing (m.rebased there.path) index
      have forward : (w.patch origin.container (Ordered.renumber (before.without m)) >>=
          fun between => between.patch destination
            (Ordered.insertAt landing (m.rebased there.path) index)) = .ok w' := by
        have carried := outcome.carried
        simp only [Rearrangement.carryOut, Rearrangement.ofTransfer, List.foldlM_cons,
          List.foldlM_nil, bind_pure] at carried
        exact carried
      have touched := (grounds_of_rearrange computed).changes
      exact ⟨_, _, _, w', computed, rfl, touched.symm, rfl, outcome.carried, forward,
        valid.patches_of_put_in src dst crossing.member crossing.other inserted forward⟩

end Valid

open Reconciler in
/-- The note is dropped onto the folder, and the note in the folder beside the folder.  The folder
is nested in the root, from which or to which a note goes. -/
theorem noteTree_patches_commute :
    let folder : Container := .ofNode looseNote.container.root { bits := 2 }
    ∀ move ∈ [Move.intoMember looseNote folder,
        .intoRoot ⟨folder, { bits := 3 }⟩ looseNote.container.root],
      ∃ planned source target w', noteTree.rearrange move = .ok planned ∧
        planned.changes = [source, target] ∧
        (noteTree.patch source.container source.after >>= fun between =>
          between.patch target.container target.after) = .ok w' ∧
        (noteTree.patch target.container target.after >>= fun between =>
          between.patch source.container source.after) = .ok w' := by
  intro folder move inside
  have either : ∃ payload location destination,
      noteTree.classify payload location = .ok move ∧ move.destination? = some destination := by
    rcases List.mem_pair.1 inside with rfl | rfl
    · exact ⟨.member .treeNode looseNote, ontoFolder, folder, rfl, rfl⟩
    · exact ⟨.member .treeNode ⟨folder, { bits := 3 }⟩,
        .single (.root looseNote.container.root) .combine, looseNote.container, rfl, rfl⟩
  obtain ⟨payload, location, destination, classified, crosses⟩ := either
  obtain ⟨planned, source, target, w', computed, changes, -, -, -, forward, backward⟩ :=
    noteTree_valid.patches_commute classified crosses
  exact ⟨planned, source, target, w', computed, changes, forward, backward⟩

end Workspace

end Outline

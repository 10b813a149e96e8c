import Outline.Proofs.Admissions
import Outline.Proofs.Revisions

/-!
# Relocated members

A member goes to another container by two patches computed from one workspace: its own list
without it, then the other list with it.  `Outline.Workspace.Valid.exists_relocated` carries out
both.  The levels say how source and destination may lie to one another: the two lists change, the
levels below the member go with it, and all other levels stay, also where one of the containers
lies below the other.
-/

namespace Outline

/-- The containers of the levels below a member are the member and those below it. -/
theorem Member.map_container_levels_perm (m : Member) (site : Site) :
    ((m.levels site).map Level.container).Perm (m.ids.map (.ofNode site.container.root)) := by
  rw [levels_eq, ids_eq]
  exact Forest.map_container_levels_perm m.children (site.below m.id m.name) m.kind

theorem Member.container_of_mem_levels {m : Member} {site : Site} {level : Level}
    (inside : level ∈ m.levels site) :
    ∃ node ∈ m.ids, level.container = .ofNode site.container.root node := by
  obtain ⟨node, listed, same⟩ := List.mem_map.1
    ((m.map_container_levels_perm site).mem_iff.1 (List.mem_map_of_mem inside))
  exact ⟨node, listed, same.symm⟩

namespace Forest

/-- The members without one of them, in the sequence that their numbers give. -/
def without (ms : Forest) (m : Member) : Forest :=
  (Ordered.sorted ms).filter (·.id ≠ m.id)

theorem mem_without {ms : Forest} {m x : Member} : x ∈ ms.without m ↔ x ∈ ms ∧ x.id ≠ m.id := by
  rw [without, List.mem_filter, Ordered.mem_sorted, decide_eq_true_eq]

theorem perm_without {ms : Forest} (distinct : (ms.map Member.id).Nodup) {m : Member}
    (member : m ∈ ms) : ms.Perm (ms.without m ++ [m]) :=
  Ordered.perm_without (α := Member) distinct member

theorem nodup_without {ms : Forest} (distinct : (ms.map Member.id).Nodup) (m : Member) :
    ((ms.without m).map Member.id).Nodup :=
  (Ordered.nodup_map_id_sorted (α := Member) distinct).sublist (List.filter_sublist.map _)

end Forest

namespace Workspace

variable {w : Workspace}

/-- A member has gone from one list to another: the lists that change and the levels below the
member, and those that stay. -/
structure Relocated (w w' : Workspace) (m : Member) (source destination : Site)
    (before landing : Forest) (index : Nat) (frame : List Level) : Prop where
  roots : w'.roots.map Root.shallow = w.roots.map Root.shallow
  levels : w.levels.Perm
    (source.level before :: destination.level landing :: (m.levels source ++ frame))
  levels_after : w'.levels.Perm (source.level (Ordered.renumber (before.without m)) ::
    destination.level (Ordered.insertAt landing (m.rebased destination.path) index) ::
    ((m.rebased destination.path).levels destination ++ frame))
  /-- The members of the destination, with all below them. -/
  landed : ∃ present, present.map Member.shallow = landing.map Member.shallow ∧
    w'.members? destination.container =
      some (Ordered.insertAt present (m.rebased destination.path) index)

section

variable {container : Container} {present : Forest} {site : Site} {frame : List Level}
  {put : Forest → Workspace} {m : Member}

/-- The identifiers of a workspace are those left after a member is taken out and the member's. -/
theorem Window.ids_perm_without (window : w.Window container present site frame put)
    (distinct : (present.map Member.id).Nodup) (member : m ∈ present) :
    w.ids.Perm (m.ids ++ (put (Ordered.renumber (present.without m))).ids) := by
  have split := Forest.ids_perm (Forest.perm_without distinct member)
  rw [Forest.ids_append, Forest.ids_singleton] at split
  have after := window.put_ids_perm (Ordered.renumber (present.without m))
  rw [Forest.ids_renumber] at after
  apply (window.ids_perm.trans (split.append_right _)).trans
  apply (List.perm_append_comm.append_right _).trans
  rw [List.append_assoc]
  exact after.symm.append_left _

/-- Taking a member out keeps a workspace valid. -/
theorem Valid.take_out (valid : w.Valid) (window : w.Window container present site frame put)
    (member : m ∈ present) :
    w.patch container (Ordered.renumber (present.without m)) =
        .ok (put (Ordered.renumber (present.without m))) ∧
      (put (Ordered.renumber (present.without m))).Valid ∧
      (w.Ascending → (put (Ordered.renumber (present.without m))).Ascending) := by
  have distinct := Forest.nodup_map_id (valid.nodup_present window)
  have split := Forest.perm_without distinct member
  have listed : (present.without m).Perm (present.without m ++ []) := by rw [List.append_nil]
  have own := Forest.sound_iff.1 (valid.sound window.level_mem)
  refine ⟨?_, ?_, fun ascending => ?_⟩
  · rw [window.patch, valid.patched_renumber window]
    · exact Forest.nodup_without distinct m
    · exact fun x inside => .inl (Forest.mem_without.1 inside).1
  · apply window.valid_renumber valid split listed
    · rw [List.append_nil]
      have names : ((present.without m ++ [m]).map fun x => Text.lower x.name).Nodup :=
        (split.map _).nodup_iff.1 own.2.1
      rw [List.map_append] at names
      exact names.sublist (List.sublist_append_left ..)
    · exact fun x inside => absurd inside List.not_mem_nil
    · exact fun x inside => absurd inside List.not_mem_nil
    · exact fun level inside => absurd inside List.not_mem_nil
    · exact valid.members_distinct
  · apply window.ascending_renumber ascending split listed
    exact fun level inside => absurd inside List.not_mem_nil

/-- Putting a newcomer into a list keeps a workspace valid if it fits there and its name is new. -/
theorem Valid.put_in (valid : w.Valid) (window : w.Window container present site frame put)
    {computed : Forest} (fields : computed.map Member.shallow = present.map Member.shallow)
    (path : m.path = site.path.child m.name)
    (kind : site.shape.accepts site.depth m.kind = true)
    (inner : ∀ level ∈ Forest.innerLevels [m] site, level.Sound)
    (apart : ∀ s ∈ present, Text.lower s.name ≠ Text.lower m.name)
    (fresh : (m.ids ++ w.ids).Nodup) (index : Nat) :
    w.patch container (Ordered.insertAt computed m index) =
        .ok (put (Ordered.insertAt present m index)) ∧
      (put (Ordered.insertAt present m index)).Valid ∧
      (w.Ascending → (∀ level ∈ Forest.innerLevels [m] site, level.Ascending) →
        (put (Ordered.insertAt present m index)).Ascending) := by
  have distinct := Forest.nodup_map_id (valid.nodup_present window)
  have split : present.Perm (present ++ []) := by rw [List.append_nil]
  have own := Forest.sound_iff.1 (valid.sound window.level_mem)
  have listed := Ordered.perm_insertion present m index
  have absent : m.id ∉ present.map Member.id := by
    refine window.not_mem_map_id fun known => ?_
    have first : m.id ∈ m.ids := by rw [Member.ids_eq]; exact .head _
    exact (List.nodup_append.1 fresh).2.2 m.id first m.id known rfl
  refine ⟨?_, ?_, fun ascending below => ?_⟩
  · rw [window.patch, Forest.patched_insertAt distinct
      (fun x member => (valid.consistent_children window member).2) fields absent]
  · refine window.valid_renumber valid split listed ?_ ?_ ?_ inner ?_
    · rw [List.map_append]
      refine List.nodup_append.2 ⟨own.2.1, List.nodup_singleton _, ?_⟩
      rintro _ inside _ own rfl
      obtain ⟨s, member, same⟩ := List.mem_map.1 inside
      exact apart s member (same.trans (List.mem_singleton.1 own))
    · exact List.forall_mem_singleton.2 path
    · exact List.forall_mem_singleton.2 kind
    · rwa [Forest.ids_singleton]
  · exact window.ascending_renumber ascending split listed below

end

section

variable {source destination : Container} {before landing : Forest} {here there : Site}
  {frameHere frameThere : List Level} {putHere putThere : Forest → Workspace} {m : Member}

/-- The destination is neither the source nor below the member, so its level stays when the member
is taken out. -/
theorem Window.exists_frame (src : w.Window source before here frameHere putHere)
    (dst : w.Window destination landing there frameThere putThere)
    (distinct : (before.map Member.id).Nodup) (member : m ∈ before)
    (other : destination ≠ source)
    (acyclic : ∀ node, destination.node = some node → node ∉ m.ids) :
    ∃ frame, (Forest.innerLevels (before.without m) here ++ frameHere).Perm
      (there.level landing :: frame) := by
  have split := src.levels_split (Forest.perm_without distinct member)
  have inside : there.level landing ∈
      Forest.innerLevels (before.without m) here ++ frameHere := by
    rcases List.mem_cons.1 (split.mem_iff.1 dst.level_mem) with same | deeper
    · refine absurd ?_ other
      rw [← dst.container_eq, ← src.container_eq]
      exact congrArg Level.container same
    rcases List.mem_append.1 deeper with below | outside
    · rcases List.mem_append.1 below with kept | gone
      · exact List.mem_append_left _ kept
      · rw [Forest.innerLevels_singleton] at gone
        obtain ⟨node, listed, same⟩ := Member.container_of_mem_levels gone
        refine absurd listed (acyclic node ?_)
        rw [← dst.container_eq]
        exact congrArg Container.node same
    · exact List.mem_append_right _ outside
  obtain ⟨front, back, split⟩ := List.append_of_mem inside
  exact ⟨front ++ back, split ▸ List.perm_middle⟩

theorem map_shallow_insertAt {present computed : Forest} {m : Member} {index : Nat}
    (fields : computed.map Member.shallow = present.map Member.shallow) :
    (Ordered.insertAt computed m index).map Member.shallow =
      (Ordered.insertAt present m index).map Member.shallow := by
  have sorts : ∀ ms : Forest, (Ordered.sorted ms).map Member.shallow =
      Ordered.sorted (ms.map Member.shallow) := fun ms =>
    (Ordered.sorted_map (f := Member.shallow) fun _ _ _ _ => Iff.rfl).symm
  have inserts : ∀ ms : Forest, (Ordered.insertAt ms m index).map Member.shallow =
      Ordered.insertAt (ms.map Member.shallow) m.shallow index := by
    intro ms
    rw [Ordered.insertAt_eq, Ordered.insertAt_eq, Ordered.map_renumber fun _ _ _ => rfl,
      List.map_append, List.map_cons, List.map_take, List.map_drop, sorts]
  rw [inserts, inserts, fields]

/-- The levels of a workspace from which a member is taken out. -/
theorem Window.levels_moving (src : w.Window source before here frameHere putHere)
    (distinct : (before.map Member.id).Nodup) (member : m ∈ before) {frame : List Level}
    (stays : (Forest.innerLevels (before.without m) here ++ frameHere).Perm
      (there.level landing :: frame)) :
    w.levels.Perm (here.level before :: there.level landing :: (m.levels here ++ frame)) := by
  refine (src.levels_split (Forest.perm_without distinct member)).trans (.cons _ ?_)
  rw [Forest.innerLevels_singleton]
  apply (List.perm_append_comm.append_right _).trans
  rw [List.append_assoc]
  exact (stays.append_left _).trans List.perm_middle

/-- The levels of a workspace from which a member has been taken out. -/
theorem Window.levels_moved (src : w.Window source before here frameHere putHere)
    {frame : List Level}
    (stays : (Forest.innerLevels (before.without m) here ++ frameHere).Perm
      (there.level landing :: frame)) :
    (putHere (Ordered.renumber (before.without m))).levels.Perm
      (here.level (Ordered.renumber (before.without m)) :: there.level landing :: frame) := by
  have listed : (before.without m).Perm (before.without m ++ []) := by rw [List.append_nil]
  refine (src.levels_renumber listed).trans (.cons _ ?_)
  rw [Forest.innerLevels, List.append_nil]
  exact stays

/-- The container of a level has a window, from which the same members are seen. -/
theorem Valid.exists_window_of_level (valid : w.Valid)
    (inside : there.level landing ∈ w.levels) : ∃ present frame put,
      w.Window there.container present there frame put ∧
      present.map Member.shallow = landing.map Member.shallow := by
  obtain ⟨present, members, fields⟩ :=
    exists_members_of_level valid.roots_distinct valid.members_distinct inside rfl
  obtain ⟨site, frame, put, window⟩ := exists_window members
  have same := level_ext valid.roots_distinct valid.members_distinct window.level_mem inside
    window.container_eq
  obtain rfl : site = there := congrArg Level.site same
  exact ⟨present, frame, put, window, fields⟩

/-- A member may go to another container that is not below it, if it and all below it fit there
and its name is new. -/
theorem Valid.exists_relocated (valid : w.Valid)
    (src : w.Window source before here frameHere putHere)
    (dst : w.Window destination landing there frameThere putThere) (member : m ∈ before)
    (other : destination ≠ source)
    (acyclic : ∀ node, destination.node = some node → node ∉ m.ids)
    (kind : there.shape.accepts there.depth m.kind = true)
    (inner : ∀ level ∈ Forest.innerLevels [m.rebased there.path] there, level.Sound)
    (apart : ∀ s ∈ landing, Text.lower s.name ≠ Text.lower m.name) (index : Nat) :
    ∃ w₁ w₂ frame, w.patch source (Ordered.renumber (before.without m)) = .ok w₁ ∧
      w₁.patch destination (Ordered.insertAt landing (m.rebased there.path) index) = .ok w₂ ∧
      w₂.Valid ∧ (w.Ascending → w₂.Ascending) ∧
      w.Relocated w₂ m here there before landing index frame := by
  have distinct := Forest.nodup_map_id (valid.nodup_present src)
  obtain ⟨frame, stays⟩ := src.exists_frame dst distinct member other acyclic
  obtain ⟨taken, valid₁, ascends₁⟩ := valid.take_out src member
  have levels := src.levels_moving distinct member stays
  have levels₁ := src.levels_moved stays
  -- The destination lists the same members, though one of them may have lost a descendant.
  obtain ⟨present, frame₁, put, window, fields⟩ :=
    valid₁.exists_window_of_level (levels₁.mem_iff.2 (.tail _ (.head _)))
  rw [dst.container_eq] at window
  have rest : (Forest.innerLevels present there ++ frame₁).Perm
      (here.level (Ordered.renumber (before.without m)) :: frame) := by
    have both := window.levels.symm.trans (levels₁.trans (.swap ..))
    rw [Forest.levels, fields] at both
    exact both.cons_inv
  have fresh : ((m.rebased there.path).ids ++
      (putHere (Ordered.renumber (before.without m))).ids).Nodup := by
    rw [Member.ids_rebased]
    exact (src.ids_perm_without distinct member).nodup_iff.1 valid.members_distinct
  have named : ∀ s ∈ present,
      Text.lower s.name ≠ Text.lower (m.rebased there.path).name := by
    intro s inside
    have listed : s.shallow ∈ landing.map Member.shallow := by
      rw [← fields]
      exact List.mem_map_of_mem inside
    obtain ⟨x, member, same⟩ := List.mem_map.1 listed
    rw [Member.name_rebased, show s.name = x.name from (congrArg Member.name same).symm]
    exact apart x member
  have path : (m.rebased there.path).path = there.path.child (m.rebased there.path).name := by
    rw [Member.path_rebased, Member.name_rebased]
  have accepted : there.shape.accepts there.depth (m.rebased there.path).kind = true := by
    rwa [Member.kind_rebased]
  obtain ⟨landed, valid₂, ascends₂⟩ :=
    valid₁.put_in window fields.symm path accepted inner named fresh index
  refine ⟨_, _, frame, taken, landed, valid₂, fun ascending => ?_, ?_⟩
  · apply ascends₂ (ascends₁ ascending)
    have ascends : ∀ level ∈ Forest.innerLevels [m] here, level.Ascending := by
      rw [Forest.innerLevels_singleton]
      intro level inside
      apply (ascending_iff.1 ascending).2 level
      exact levels.mem_iff.2 (.tail _ (.tail _ (List.mem_append_left _ inside)))
    exact Forest.ascending_rebased there.path ascends
  · exact {
      roots := (window.put_roots _).trans (src.put_roots _)
      levels := levels
      levels_after := by
        apply (window.levels_renumber (Ordered.perm_insertion present _ index)).trans
        rw [← Ordered.insertAt_eq, map_shallow_insertAt fields, Forest.innerLevels_singleton]
        refine (List.Perm.cons _ ?_).trans (.swap ..)
        apply (List.perm_append_comm.append_right _).trans
        rw [List.append_assoc]
        exact (rest.append_left _).trans List.perm_middle
      landed := ⟨present, fields, by rw [dst.container_eq]; exact window.put_members _⟩ }

end

end Workspace

end Outline

import Outline.Proofs.Transfers

/-!
# Where moves lead

What a move does to a workspace, told from outside: the moved member comes to its place with all
below it, every other member stays in its container, and the others of each container keep their
sequence (`Outline.Workspace.Moved`); a root comes to its place among the others
(`Outline.Workspace.RootMoved`).  `Outline.Workspace.Leads` says it for each kind of move.
-/

namespace Outline

namespace Workspace

/-- A member has moved from one container to the place in another that `lands` describes by the
identifiers in front of it and behind it. -/
structure Moved (w w' : Workspace) (m : Member) (source destination : Container)
    (lands : List Id → List Id → Prop) : Prop where
  roots : w'.roots.map Root.shallow = w.roots.map Root.shallow
  left : ∃ ms, w.members? source = some ms ∧ m ∈ ms
  /-- The moved member, with all below it, under the path of the destination. -/
  landed : ∃ ms path n front back, w'.members? destination = some ms ∧
    w.path? destination = some path ∧ Ordered.withOrder (m.rebased path) n ∈ ms ∧
    ms.map Member.id = front ++ m.id :: back ∧ lands front back
  /-- Every other member keeps its container, name, kind and path. -/
  others : ∀ row ∈ w.rows, row.id ∉ m.ids → ∃ n, { row with order := n } ∈ w'.rows
  sequence : ∀ container ms, (∀ node, container.node = some node → node ∉ m.ids) →
    w.members? container = some ms → ∃ ms', w'.members? container = some ms' ∧
      (ms'.map Member.id).filter (· ≠ m.id) = (ms.map Member.id).filter (· ≠ m.id)

/-- A root has moved next to another. -/
structure RootMoved (w w' : Workspace) (root target : Id) (side : Side) : Prop where
  sequence : ∃ front back, (w.roots.map Root.id).filter (· ≠ root) = front ++ back ∧
    w'.roots.map Root.id = front ++ root :: back ∧ side.Borders target front back
  /-- Every root keeps its name, its shape and its members. -/
  kept : ∀ r ∈ w.roots, ∃ n, { r with order := n } ∈ w'.roots

/-- Where a move leads from one workspace. -/
def Leads (w : Workspace) (w' : Workspace) : Move → Prop
  | .within origin target side => ∃ m : Member, m.id = origin.member ∧
      w.Moved w' m origin.container origin.container (side.Borders target)
  | .across origin destination target side => ∃ m : Member, m.id = origin.member ∧
      w.Moved w' m origin.container destination (side.Borders target)
  | .intoMember origin destination => ∃ m : Member, m.id = origin.member ∧
      w.Moved w' m origin.container destination fun _ back => back = []
  | .intoRoot origin root => ∃ m : Member, m.id = origin.member ∧
      w.Moved w' m origin.container (.ofRoot root) fun _ back => back = []
  | .ofRoot root target side => w.RootMoved w' root target side

end Workspace

/-- A level once a member has moved: the other members are there, in the same sequence. -/
structure Level.Follows (level' level : Level) (moved : Id) : Prop where
  container : level'.container = level.container
  owner : level'.owner = level.owner
  sequence : level'.ids.filter (· ≠ moved) = level.ids.filter (· ≠ moved)
  members : ∀ x ∈ level.members, x.id ≠ moved → ∃ n, Ordered.withOrder x n ∈ level'.members

namespace Level

theorem Follows.refl (level : Level) (moved : Id) : level.Follows level moved where
  container := rfl
  owner := rfl
  sequence := rfl
  members x member _ := ⟨x.order, by rwa [← x.ordered_order, Ordered.withOrder_order]⟩

/-- Numbering anew keeps the members and, if it lists the others in sequence, their sequence. -/
theorem follows_renumber {site : Site} {list present : Forest} {moved : Id}
    (sequence : (list.map Member.id).filter (· ≠ moved) =
      (present.map Member.id).filter (· ≠ moved))
    (members : ∀ x ∈ present, x.id ≠ moved → x ∈ list) :
    (site.level (Ordered.renumber list)).Follows (site.level present) moved where
  container := rfl
  owner := rfl
  sequence := by
    rw [ids_level, ids_level, Ordered.map_renumber_eq (f := Member.id) fun _ _ => rfl]
    exact sequence
  members := by
    intro x member differs
    obtain ⟨y, inside, rfl⟩ := List.mem_map.1 member
    obtain ⟨n, listed⟩ := Ordered.exists_mem_renumber (members y inside differs)
    exact ⟨n, List.mem_map.2 ⟨_, listed, rfl⟩⟩

end Level

namespace Workspace

variable {w w' : Workspace} {m : Member}

/-- If every level but those below a member follows, all other members stay and keep their
sequence. -/
theorem Valid.moved_of_follows (valid' : w'.Valid) (above : Site)
    (follows : ∀ level ∈ w.levels, level ∈ m.levels above ∨
      ∃ level' ∈ w'.levels, level'.Follows level m.id)
    {source destination : Container} {lands : List Id → List Id → Prop}
    (roots : w'.roots.map Root.shallow = w.roots.map Root.shallow)
    (left : ∃ ms, w.members? source = some ms ∧ m ∈ ms)
    (landed : ∃ ms path n front back, w'.members? destination = some ms ∧
      w.path? destination = some path ∧ Ordered.withOrder (m.rebased path) n ∈ ms ∧
      ms.map Member.id = front ++ m.id :: back ∧ lands front back) :
    w.Moved w' m source destination lands where
  roots := roots
  left := left
  landed := landed
  others := by
    intro row inside outside
    obtain ⟨level, listed, inside⟩ := List.mem_flatMap.1 (w.rows_perm_levels.mem_iff.1 inside)
    obtain ⟨x, member, rfl⟩ := List.mem_map.1 inside
    rcases follows level listed with below | ⟨level', listed', follows⟩
    · refine absurd ?_ outside
      rw [Member.ids_eq]
      refine .tail _ ((m.ids_perm_levels above).mem_iff.2 ?_)
      exact List.mem_flatMap.2 ⟨level, below, List.mem_map_of_mem member⟩
    · have differs : x.id ≠ m.id := fun same => outside (by
        rw [Member.ids_eq]
        exact same ▸ .head _)
      obtain ⟨n, member'⟩ := follows.members x member differs
      refine ⟨n, w'.rows_perm_levels.mem_iff.2 (List.mem_flatMap.2 ⟨level', listed', ?_⟩)⟩
      refine List.mem_map.2 ⟨_, member', ?_⟩
      rw [follows.container]
      rfl
  sequence := by
    intro container ms apart members
    obtain ⟨site, frame, put, window⟩ := exists_window members
    rcases follows _ window.level_mem with below | ⟨level', listed', follows⟩
    · obtain ⟨node, inside, same⟩ := Member.container_of_mem_levels below
      refine absurd inside (apart node ?_)
      rw [← window.container_eq]
      exact congrArg Container.node same
    · obtain ⟨ms', members', fields⟩ := exists_members_of_level valid'.roots_distinct
        valid'.members_distinct listed' follows.owner
      rw [follows.container] at members'
      have same : (site.level ms).container = container := window.container_eq
      refine ⟨ms', same ▸ members', ?_⟩
      have sequence := follows.sequence
      rw [Level.ids, ← fields, List.map_map, Level.ids_level] at sequence
      exact sequence

/-- What is left of a list in ascending order is the list without the member. -/
theorem map_id_without {ms : Forest} (ascending : ms.Pairwise (·.order < ·.order)) (m : Member) :
    (ms.without m).map Member.id = (ms.map Member.id).filter (· ≠ m.id) := by
  have listed : Ordered.sorted ms = ms := Ordered.sorted_eq_of_perm (.refl _) ascending
  rw [Forest.without, listed, List.filter_map]
  rfl

section

variable {container : Container} {present : Forest} {site : Site} {frame : List Level}
  {put : Forest → Workspace} (window : w.Window container present site frame put)

include window

theorem Window.ascending_present (ascending : w.Ascending) :
    present.Pairwise (·.order < ·.order) :=
  Forest.ascending_shallow.1 ((ascending_iff.1 ascending).2 _ window.level_mem)

/-- A move among siblings leads to the place where it puts the member. -/
theorem Window.moved_within (valid : w.Valid) (ascending : w.Ascending) (member : m ∈ present)
    {front back : Forest} (split : present.without m = front ++ back)
    (valid' : (put (Ordered.renumber (front ++ m :: back))).Valid)
    {lands : List Id → List Id → Prop}
    (place : lands (front.map Member.id) (back.map Member.id)) :
    w.Moved (put (Ordered.renumber (front ++ m :: back))) m container container lands := by
  have distinct := Forest.nodup_map_id (valid.nodup_present window)
  have perm : (front ++ m :: back).Perm present :=
    Ordered.perm_of_without (α := Member) distinct member split
  have after := window.put_levels (Ordered.renumber (front ++ m :: back))
  refine valid'.moved_of_follows site (fun level inside => .inr ?_)
    (window.put_roots _) ⟨present, window.members, member⟩ ?_
  · rcases List.mem_append.1 (window.levels.mem_iff.1 inside) with own | outside
    · rcases List.mem_cons.1 own with rfl | below
      · refine ⟨_, after.mem_iff.2 (List.mem_append_left _ (.head _)),
          Level.follows_renumber ?_ fun x inside _ => perm.mem_iff.2 inside⟩
        rw [List.map_append, List.map_cons, filter_middle, ← List.map_append, ← split,
          map_id_without (window.ascending_present ascending), List.filter_filter]
        simp
      · refine ⟨level, after.mem_iff.2 (List.mem_append_left _ (.tail _ ?_)), .refl level m.id⟩
        rw [Forest.innerLevels_renumber]
        exact (Forest.innerLevels_perm perm site).mem_iff.2 below
    · exact ⟨level, after.mem_iff.2 (List.mem_append_right _ outside), .refl level m.id⟩
  · have same : m.rebased site.path = m := by
      obtain ⟨path, children⟩ := valid.consistent_children window member
      rw [Member.rebased_eq, ← path, children, Member.mk_eta]
    obtain ⟨n, listed⟩ := Ordered.exists_mem_renumber
      (List.mem_append_right front (List.mem_cons_self (a := m) (l := back)))
    refine ⟨_, site.path, n, front.map Member.id, back.map Member.id, window.put_members _,
      window.path valid.paths, by rwa [same], ?_, place⟩
    rw [Ordered.map_renumber_eq (f := Member.id) fun _ _ => rfl, List.map_append, List.map_cons]

end

/-- A move to another container leads to the place where it puts the member. -/
theorem Relocated.moved {source destination : Container} {before landing : Forest}
    {here there : Site} {frameHere frameThere frame : List Level}
    {putHere putThere : Forest → Workspace} {index : Nat}
    (relocated : w.Relocated w' m here there before landing index frame) (valid : w.Valid)
    (ascending : w.Ascending) (valid' : w'.Valid)
    (src : w.Window source before here frameHere putHere)
    (dst : w.Window destination landing there frameThere putThere) (member : m ∈ before)
    {lands : List Id → List Id → Prop}
    (place : lands ((landing.take index).map Member.id) ((landing.drop index).map Member.id)) :
    w.Moved w' m source destination lands := by
  have sorts : ∀ {ms : Forest}, ms.Pairwise (·.order < ·.order) → Ordered.sorted ms = ms :=
    fun ascends => Ordered.sorted_eq_of_perm (.refl _) ascends
  have after := relocated.levels_after
  refine valid'.moved_of_follows here (fun level inside => ?_) relocated.roots
    ⟨before, src.members, member⟩ ?_
  · rcases List.mem_cons.1 (relocated.levels.mem_iff.1 inside) with rfl | inside
    · refine .inr ⟨_, after.mem_iff.2 (.head _), Level.follows_renumber ?_ ?_⟩
      · rw [map_id_without (src.ascending_present ascending), List.filter_filter]
        simp
      · exact fun x inside differs => Forest.mem_without.2 ⟨inside, differs⟩
    rcases List.mem_cons.1 inside with rfl | inside
    · refine .inr ⟨_, after.mem_iff.2 (.tail _ (.head _)), Level.follows_renumber ?_ ?_⟩
      · rw [List.map_append, List.map_cons, Member.id_rebased, filter_middle, ← List.map_append,
          List.take_append_drop, sorts (dst.ascending_present ascending)]
      · intro x inside _
        exact (Ordered.perm_insertion landing _ index).mem_iff.2 (List.mem_append_left _ inside)
    rcases List.mem_append.1 inside with below | outside
    · exact .inl below
    · refine .inr ⟨level, after.mem_iff.2 (.tail _ (.tail _ ?_)), .refl level m.id⟩
      exact List.mem_append_right _ outside
  · obtain ⟨present, fields, members⟩ := relocated.landed
    have ids : present.map Member.id = landing.map Member.id := by
      have same := congrArg (List.map Member.id) fields
      rwa [List.map_map, List.map_map] at same
    have ascends : present.Pairwise (·.order < ·.order) := by
      have listed : (there.level landing).Ascending :=
        Forest.ascending_shallow.2 (dst.ascending_present ascending)
      rw [Site.level, ← fields] at listed
      exact Forest.ascending_shallow.1 listed
    obtain ⟨n, listed⟩ := Ordered.exists_mem_insertAt present (m.rebased there.path) index
    refine ⟨_, there.path, n, _, _, dst.container_eq ▸ members, dst.path valid.paths, listed, ?_,
      place⟩
    rw [Ordered.insertAt_eq, Ordered.map_renumber_eq (f := Member.id) fun _ _ => rfl,
      List.map_append, List.map_cons, Member.id_rebased, sorts ascends, List.map_take, ids,
      List.map_drop, ids, ← List.map_take, ← List.map_drop]

/-- A root that is put back into the sequence has moved there. -/
theorem rootMoved_renumber (ascending : w.Ascending) {root : Root} {front back : List Root}
    {target : Id} {side : Side} (perm : (front ++ root :: back).Perm w.roots)
    (split : (Ordered.sorted w.roots).filter (·.id ≠ root.id) = front ++ back)
    (borders : side.Borders target (front.map Root.id) (back.map Root.id)) :
    w.RootMoved ⟨Ordered.renumber (front ++ root :: back)⟩ root.id target side where
  sequence := by
    have listed : Ordered.sorted w.roots = w.roots :=
      Ordered.sorted_eq_of_perm (.refl _) ascending.roots
    refine ⟨front.map Root.id, back.map Root.id, ?_, ?_, borders⟩
    · rw [List.filter_map, ← List.map_append, ← split, listed]
      rfl
    · change (Ordered.renumber (front ++ root :: back)).map Root.id = _
      rw [Ordered.map_renumber_eq (f := Root.id) fun _ _ => rfl, List.map_append, List.map_cons]
  kept r inside := Ordered.exists_mem_renumber (perm.mem_iff.2 inside)

end Workspace

end Outline

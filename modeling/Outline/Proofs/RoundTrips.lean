import Outline.Proofs.Tables

/-!
# There and back

A member that has gone to another container goes back to its place.  Taking it out of the list where
it came undoes that it was put in there, and putting it back undoes that it was taken out, so that
every level is as it was and so is the workspace (`Outline.Workspace.Crossing.eq_of_back`).
-/

namespace Outline

namespace Ordered

variable {α : Type} [Ordered α] {x : α}

/-- Taking out what was put in leaves the other items in sequence and numbered anew. -/
theorem renumber_filter_insertAt {items : List α} (absent : ∀ y ∈ items, id y ≠ id x)
    (index : Nat) :
    renumber ((sorted (insertAt items x index)).filter (id · ≠ id x)) = densify items := by
  have others : (sorted items).filter (id · ≠ id x) = sorted items :=
    List.filter_eq_self.2 fun y inside => decide_eq_true (absent y (mem_sorted.1 inside))
  rw [insertAt_eq, sorted_eq_self (pairwise_renumber _), densify]
  apply renumber_congr
  rw [map_withOrder_filter, map_renumber_eq fun y n => withOrder_withOrder y n 0,
    ← map_withOrder_filter, List.filter_append, List.filter_cons_of_neg (by simp),
    ← List.filter_append, List.take_append_drop, others]

/-- Putting an item back where it was taken out gives the items there were, numbered anew. -/
theorem insertAt_renumber (front back : List α) (x : α) (n : Nat) :
    insertAt (renumber (front ++ back)) (withOrder x n) front.length =
      renumber (front ++ x :: back) := by
  have bare : (renumber (front ++ back)).map (withOrder · 0) =
      (front ++ back).map (withOrder · 0) :=
    map_renumber_eq fun y n => withOrder_withOrder y n 0
  rw [insertAt_eq, sorted_eq_self (pairwise_renumber _)]
  apply renumber_congr
  rw [List.map_append, List.map_cons, List.map_take, List.map_drop, bare, ← List.map_take,
    ← List.map_drop, List.take_left, List.drop_left, withOrder_withOrder, List.map_append,
    List.map_cons]

/-- Items that are listed by number and numbered from one are so after sorting and numbering. -/
theorem densify_eq_self {items : List α} (dense : isDense items = true)
    (ascending : items.Pairwise (order · < order ·)) : densify items = items := by
  rw [densify, renumber_sorted dense, sorted_eq_of_perm (.refl _) ascending]

end Ordered

namespace Member

/-- A number bears neither on the paths below a member nor on the levels there. -/
theorem rebased_withOrder (m : Member) (n : Nat) (path : Path) :
    (Ordered.withOrder m n).rebased path = Ordered.withOrder (m.rebased path) n := by
  cases m
  rfl

theorem levels_withOrder (m : Member) (n : Nat) (site : Site) :
    (Ordered.withOrder m n).levels site = m.levels site := by
  cases m
  rfl

end Member

/-- What is left of a list in ascending order, told by the place of the member in it. -/
theorem Forest.without_eq {ms front back : Forest} {m : Member} (split : ms = front ++ m :: back)
    (distinct : (ms.map Member.id).Nodup) (ascending : ms.Pairwise (·.order < ·.order)) :
    ms.without m = front ++ back := by
  have listed : Ordered.sorted ms = ms := Ordered.sorted_eq_of_perm (.refl _) ascending
  rw [without, listed, split]
  exact Ordered.filter_id_middle (α := Member) (split ▸ distinct)

namespace Workspace

variable {w w' w'' : Workspace}

section

variable {container : Container} {present present' : Forest} {site site' : Site}
  {frame frame' : List Level} {put put' : Forest → Workspace}

/-- What is seen from a container does not depend on the window. -/
theorem Valid.window_ext (valid : w.Valid) (first : w.Window container present site frame put)
    (second : w.Window container present' site' frame' put') :
    present = present' ∧ site = site' := by
  refine ⟨Option.some.inj (first.members.symm.trans second.members), ?_⟩
  exact congrArg Level.site (level_ext valid.roots_distinct valid.members_distinct first.level_mem
    second.level_mem (first.container_eq.trans second.container_eq.symm))

/-- The paths of a listed member and of all below it are the same again once it is back. -/
theorem Valid.rebased_back (valid : w.Valid) (window : w.Window container present site frame put)
    {m : Member} (member : m ∈ present) (away : Path) :
    (m.rebased away).rebased site.path = m := by
  obtain ⟨path, children⟩ := valid.consistent_children window member
  rw [Member.rebased_eq, Member.children_rebased, Member.name_rebased, Forest.rebased_rebased,
    ← path, children, Member.rebased_eq]
  exact m.mk_eta

end

/-- A member goes from one container to another: how both are seen before, and what becomes of
them. -/
structure Crossing (w w' : Workspace) (m : Member) (source destination : Container)
    (here there : Site) (before landing : Forest) (index : Nat) : Prop where
  src : ∃ frame put, w.Window source before here frame put
  dst : ∃ frame put, w.Window destination landing there frame put
  member : m ∈ before
  other : destination ≠ source
  relocated : ∃ frame, w.Relocated w' m here there before landing index frame

namespace Crossing

variable {m m' : Member} {source destination : Container} {here there here' there' : Site}
  {before landing landed remaining front back : Forest} {index index' : Nat}

section

variable (crossing : w.Crossing w' m source destination here there before landing index)
  (valid' : w'.Valid)

include crossing valid'

/-- The destination afterwards: it lists the member besides those there were. -/
theorem exists_landed : ∃ present frame put,
    present.map Member.shallow = landing.map Member.shallow ∧ w'.Window destination
      (Ordered.insertAt present (m.rebased there.path) index) there frame put := by
  obtain ⟨_, _, dst⟩ := crossing.dst
  obtain ⟨rest, relocated⟩ := crossing.relocated
  obtain ⟨present, fields, members⟩ := relocated.landed
  obtain ⟨listed, frame, put, window, -⟩ := valid'.exists_window_of_level
    (relocated.levels_after.mem_iff.2 (.tail _ (.head _)))
  obtain rfl : listed = _ := Option.some.inj (window.members.symm.trans members)
  rw [dst.container_eq] at window
  exact ⟨present, frame, put, fields, window⟩

/-- The source afterwards: it lists the members that stayed. -/
theorem exists_remaining : ∃ remaining frame put, remaining.map Member.shallow =
      (Ordered.renumber (before.without m)).map Member.shallow ∧
    w'.Window source remaining here frame put := by
  obtain ⟨_, _, src⟩ := crossing.src
  obtain ⟨rest, relocated⟩ := crossing.relocated
  obtain ⟨remaining, frame, put, window, fields⟩ := valid'.exists_window_of_level
    (relocated.levels_after.mem_iff.2 (.head _))
  rw [src.container_eq] at window
  exact ⟨remaining, frame, put, fields, window⟩

end

section

variable (valid : w.Valid) (valid' : w'.Valid)
  (crossing : w.Crossing w' m source destination here there before landing index)
  (again : w'.Crossing w'' m' destination source there' here' landed remaining index')
  (same : m'.id = m.id)

include valid' crossing again same

/-- The member that goes back is the one that came, and finds both places where they were. -/
theorem meets : there' = there ∧ here' = here ∧
    ∃ n, m' = Ordered.withOrder (m.rebased there.path) n := by
  obtain ⟨present, _, _, -, window⟩ := crossing.exists_landed valid'
  obtain ⟨_, _, _, -, stayed⟩ := crossing.exists_remaining valid'
  obtain ⟨_, _, src⟩ := again.src
  obtain ⟨_, _, dst⟩ := again.dst
  obtain ⟨rfl, rfl⟩ := valid'.window_ext src window
  obtain ⟨-, rfl⟩ := valid'.window_ext dst stayed
  refine ⟨rfl, rfl, ?_⟩
  obtain ⟨n, listed⟩ := Ordered.exists_mem_insertAt present (m.rebased there'.path) index
  refine ⟨n, List.inj_on_of_nodup_map (Forest.nodup_map_id (valid'.nodup_present src)) again.member
    listed (same.trans ?_)⟩
  exact (m.id_rebased there'.path).symm

include valid

/-- What is left in the destination is what it listed at first. -/
theorem level_left (ascending : landing.Pairwise (·.order < ·.order)) :
    there.level (Ordered.renumber (landed.without m')) = there.level landing := by
  obtain ⟨present, _, _, fields, window⟩ := crossing.exists_landed valid'
  obtain ⟨_, _, src⟩ := again.src
  obtain ⟨_, _, dst⟩ := crossing.dst
  obtain ⟨rfl, rfl⟩ := valid'.window_ext src window
  have distinct := Forest.nodup_map_id (valid'.nodup_present src)
  have listed : (present.map Member.id ++ [m.id]).Nodup := by
    have perm := (Ordered.perm_insertion present (m.rebased there'.path) index).map Member.id
    rw [Ordered.insertAt_eq, Ordered.map_renumber_eq (f := Member.id) fun _ _ => rfl,
      perm.nodup_iff] at distinct
    rwa [List.map_append, List.map_singleton, Member.id_rebased] at distinct
  have absent : ∀ y ∈ present, y.id ≠ m.id := fun y inside =>
    (List.nodup_append.1 listed).2.2 y.id (List.mem_map_of_mem inside) m.id (.head _)
  have left : Ordered.renumber (Forest.without (Ordered.insertAt present (m.rebased there'.path)
      index) m') = Ordered.densify present := by
    have undone := @Ordered.renumber_filter_insertAt Member _ (m.rebased there'.path) present
      (fun y inside => by simpa [Ordered.id] using absent y inside) index
    rw [← undone, Forest.without, same]
    simp [Ordered.id]
  have orders : present.map Member.order = landing.map Member.order := by
    have shallow := congrArg (List.map Member.order) fields
    rwa [List.map_map, List.map_map] at shallow
  have dense : Ordered.isDense present = true :=
    (Ordered.isDense_congr orders).trans (valid.dense_present dst)
  have ascends : present.Pairwise (·.order < ·.order) := by
    apply List.pairwise_map.1
    rw [orders]
    exact List.pairwise_map.2 ascending
  rw [left, Ordered.densify_eq_self dense ascends, Site.level, fields]

/-- The source lists again what it listed at first. -/
theorem level_returned (split : before = front ++ m :: back) (place : index' = front.length)
    (ascending : before.Pairwise (·.order < ·.order)) :
    here.level (Ordered.insertAt remaining (m'.rebased here.path) index') = here.level before := by
  obtain ⟨rfl, rfl, n, rfl⟩ := crossing.meets valid' again same
  obtain ⟨_, _, _, fields, stayed⟩ := crossing.exists_remaining valid'
  obtain ⟨_, _, src⟩ := crossing.src
  obtain ⟨_, _, dst⟩ := again.dst
  obtain ⟨rfl, -⟩ := valid'.window_ext dst stayed
  have home := Ordered.densify_eq_self (valid.dense_present src) ascending
  rw [Ordered.densify, Ordered.sorted_eq_of_perm (.refl _) ascending] at home
  rw [Forest.without_eq split (Forest.nodup_map_id (valid.nodup_present src)) ascending] at fields
  rw [Member.rebased_withOrder, valid.rebased_back src crossing.member, Site.level,
    map_shallow_insertAt fields, place, Ordered.insertAt_renumber, ← split, home]

/-- Every level is as it was. -/
theorem levels_back (split : before = front ++ m :: back) (place : index' = front.length)
    (ascending : before.Pairwise (·.order < ·.order))
    (ascending' : landing.Pairwise (·.order < ·.order)) : w''.levels.Perm w.levels := by
  have left := crossing.level_left valid valid' again same ascending'
  have returned := crossing.level_returned valid valid' again same split place ascending
  obtain ⟨rfl, rfl, n, rfl⟩ := crossing.meets valid' again same
  obtain ⟨_, _, src⟩ := crossing.src
  obtain ⟨outer, gone⟩ := crossing.relocated
  obtain ⟨outer', back⟩ := again.relocated
  have unique := fun a b => @level_ext w' valid'.roots_distinct valid'.members_distinct a b
  have there := unique _ _ (back.levels.mem_iff.2 (.head _))
    (gone.levels_after.mem_iff.2 (.tail _ (.head _))) rfl
  have here := unique _ _ (back.levels.mem_iff.2 (.tail _ (.head _)))
    (gone.levels_after.mem_iff.2 (.head _)) rfl
  -- Both lists and the member are told apart from the frames, so that the frames are the same.
  have stays : outer'.Perm outer := by
    have both := back.levels.symm.trans (gone.levels_after.trans (.swap ..))
    rw [there, here, Member.levels_withOrder] at both
    exact (List.perm_append_left_iff _).1 both.cons_inv.cons_inv
  have after := back.levels_after
  rw [left, returned, Member.rebased_withOrder, valid.rebased_back src crossing.member,
    Member.levels_withOrder] at after
  have rest := ((stays.append_left (m.levels here')).cons (there'.level landing)).cons
    (here'.level before)
  exact (after.trans (.swap ..)).trans (rest.trans gone.levels.symm)

/-- The workspace is as it was. -/
theorem eq_of_back (split : before = front ++ m :: back) (place : index' = front.length)
    (ascending : before.Pairwise (·.order < ·.order))
    (ascending' : landing.Pairwise (·.order < ·.order)) : w'' = w := by
  obtain ⟨_, gone⟩ := crossing.relocated
  obtain ⟨_, returned⟩ := again.relocated
  have levels := crossing.levels_back valid valid' again same split place ascending ascending'
  exact (valid.eq_of_levels (returned.roots.trans gone.roots).symm levels.symm).symm

end

end Crossing

end Workspace

end Outline

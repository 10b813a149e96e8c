import Outline.Proofs.Windows

/-!
# Changes in place

What a patch does to the trees themselves: the list of one container is changed and everything
around it is copied (`Outline.Workspace.modify`).  A search stops at the first member that has the
identifier it looks for, so that a patch is a change in place where no two members of the workspace
have the identifier of the container (`Outline.Workspace.patch_eq_modify`).  Other identifiers may
well occur more than once.
-/

namespace Outline

mutual

/-- The member with `f` applied to the children of the one called `node`, itself or one below it. -/
def Member.modify (node : Id) (f : Forest → Forest) : Member → Member
  | ⟨id, name, order, kind, path, children⟩ =>
    ⟨id, name, order, kind, path, if id = node then f children else Forest.modify node f children⟩

/-- The forest with `f` applied to the children of the member called `node`, at any depth. -/
def Forest.modify (node : Id) (f : Forest → Forest) : List Member → List Member
  | [] => []
  | m :: ms => m.modify node f :: Forest.modify node f ms

end

/-- The forest with `f` applied to the children of the member called `node` or, without one, to the
forest itself. -/
def Forest.modifyAt (node : Option Id) (f : Forest → Forest) (ms : Forest) : Forest :=
  match node with
  | none => f ms
  | some node => Forest.modify node f ms

/-- The root with `f` applied to the list of the container, if the container is in this root. -/
def Root.modify (root : Root) (container : Container) (f : Forest → Forest) : Root :=
  if root.id = container.root then
    root.withMembers (Forest.modifyAt container.node f root.members)
  else
    root

/-- The workspace with `f` applied to the list of the container. -/
def Workspace.modify (w : Workspace) (container : Container) (f : Forest → Forest) : Workspace :=
  ⟨w.roots.map (·.modify container f)⟩

namespace Member

variable (node : Id) (f : Forest → Forest) (m : Member)

theorem modify_eq : m.modify node f = { m with
    children := if m.id = node then f m.children else Forest.modify node f m.children } := by
  cases m
  rfl

@[simp] theorem id_modify : (m.modify node f).id = m.id := by
  rw [modify_eq]

end Member

namespace Forest

variable {node : Id} {f g : Forest → Forest} {ms : Forest}

theorem modify_eq_map (node : Id) (f : Forest → Forest) (ms : Forest) :
    modify node f ms = ms.map (·.modify node f) := by
  induction ms with
  | nil => rfl
  | cons m ms ih => rw [modify, ih, List.map_cons]

@[simp] theorem map_id_modify : (modify node f ms).map Member.id = ms.map Member.id := by
  rw [modify_eq_map, List.map_map]
  exact List.map_congr_left fun m _ => m.id_modify node f

/-- A forest without the member is not changed. -/
theorem modify_of_not_mem (absent : node ∉ ids ms) : modify node f ms = ms := by
  induction ms using Forest.induct with
  | nil => rfl
  | cons m ms inner later =>
      rw [ids_cons, List.mem_cons, List.mem_append, not_or, not_or] at absent
      rw [modify, Member.modify_eq, if_neg (Ne.symm absent.1), inner absent.2.1,
        later absent.2.2, Member.mk_eta]

/-- Changes at two members can be made in either sequence, if each of them can be made before or
after the other one where that is nested in it. -/
theorem modify_comm {first second : Id} (other : first ≠ second)
    (atFirst : ∀ m ∈ subtrees ms, m.id = first →
      f (modify second g m.children) = modify second g (f m.children))
    (atSecond : ∀ m ∈ subtrees ms, m.id = second →
      g (modify first f m.children) = modify first f (g m.children)) :
    modify first f (modify second g ms) = modify second g (modify first f ms) := by
  induction ms using Forest.induct with
  | nil => rfl
  | cons m ms inner later =>
      rw [subtrees_cons, List.forall_mem_cons, List.forall_mem_append] at atFirst atSecond
      simp only [modify, Member.modify_eq, later atFirst.2.2 atSecond.2.2]
      by_cases here : m.id = first
      · have there : m.id ≠ second := here ▸ other
        simp only [if_pos here, if_neg there, atFirst.1 here]
      · by_cases there : m.id = second
        · simp only [if_neg here, if_pos there, atSecond.1 there]
        · simp only [if_neg here, if_neg there, inner atFirst.2.1 atSecond.2.1]

/-- To replace what is in focus is to change the forest in place, if only one member has the
identifier. -/
theorem replace_eq_modify {focus : Focus Forest Member} (found : focus? ms node = some focus)
    (once : (ids ms).count node ≤ 1) (f : Forest → Forest) :
    focus.replace { focus.part with children := f focus.part.children } = modify node f ms := by
  induction ms using Forest.induct generalizing focus with
  | nil => exact absurd found (by simp [focus?])
  | cons m ms inner later =>
      rw [focus?_cons] at found
      rw [ids_cons, List.count_cons, List.count_append] at once
      rw [modify, Member.modify_eq]
      by_cases named : m.id = node
      · rw [if_pos named] at found ⊢
        obtain rfl := Option.some.inj found
        rw [if_pos (by simpa using named)] at once
        rw [modify_of_not_mem (List.count_eq_zero.1 (by omega))]
      · rw [if_neg named] at found ⊢
        cases deeper : focus? m.children node with
        | some below =>
            rw [deeper] at found
            obtain rfl := Option.some.inj found
            have present : 0 < (ids m.children).count node := by
              rw [List.count_pos_iff, ← locate?_isSome_iff m.children node default 0,
                ← Option.isSome_map (f := Located.member), ← map_part_focus?, deeper]
              rfl
            rw [← inner deeper (by omega), modify_of_not_mem (List.count_eq_zero.1 (by omega))]
        | none =>
            rw [deeper] at found
            obtain ⟨after, there, rfl⟩ := Option.map_eq_some_iff.1 found
            have absent : node ∉ ids m.children := by
              rw [← locate?_isSome_iff m.children node default 0,
                ← Option.isSome_map (f := Located.member), ← map_part_focus?, deeper]
              exact Bool.false_ne_true
            rw [← later there (by omega), modify_of_not_mem absent, Member.mk_eta]

end Forest

namespace Workspace

variable {w : Workspace} {container : Container} {f : Forest → Forest}

theorem map_shallow_modify : (w.modify container f).roots.map Root.shallow =
    w.roots.map Root.shallow := by
  rw [modify, List.map_map]
  refine List.map_congr_left fun root _ => ?_
  change (root.modify container f).shallow = root.shallow
  rw [Root.modify]
  split <;> rfl

/-- In a workspace that is split at the container's root, only that root changes. -/
theorem modify_split {front back : List Root} {root : Root}
    (distinct : ((front ++ root :: back).map Root.id).Nodup) (node : Option Id) :
    modify ⟨front ++ root :: back⟩ ⟨root.id, node⟩ f =
      ⟨front ++ root.withMembers (Forest.modifyAt node f root.members) :: back⟩ := by
  rw [List.map_append, List.map_cons] at distinct
  have apart := (List.nodup_cons.1 (List.nodup_middle.1 distinct)).1
  have others : ∀ rs : List Root, rs.map Root.id ⊆ front.map Root.id ++ back.map Root.id →
      rs.map (·.modify ⟨root.id, node⟩ f) = rs := by
    intro rs inside
    refine (List.map_congr_left fun r listed => ?_).trans (List.map_id rs)
    have other : r.id ≠ root.id := fun same => apart (same ▸ inside (List.mem_map_of_mem listed))
    exact if_neg other
  rw [modify, List.map_append, List.map_cons, others front (List.subset_append_left ..),
    others back (List.subset_append_right ..)]
  exact congrArg (fun r => Workspace.mk (front ++ r :: back)) (if_pos rfl)

/-- A patch changes the list of the container in place. -/
theorem patch_eq_modify (roots : (w.roots.map Root.id).Nodup) (once : w.HasOnce container)
    {present after : Forest} (members : w.members? container = some present)
    (takes : f present = Forest.patched present after) :
    w.patch container after = .ok (w.modify container f) := by
  obtain ⟨root, here, inside⟩ := Option.bind_eq_some_iff.1 members
  obtain ⟨front, back, rfl, named, before⟩ := root?_eq_some_iff.1 here
  obtain ⟨rootId, node⟩ := container
  dsimp only at named inside
  subst named
  rw [modify_split roots]
  cases node with
  | none =>
      obtain rfl := Option.some.inj inside
      refine ((exists_window_root before).patch after).trans ?_
      rw [← takes]
      rfl
  | some node =>
      obtain ⟨located, search, children⟩ := Option.bind_eq_some_iff.1 inside
      have part := Forest.map_part_focus? root.members node root.container 0
      rw [search] at part
      obtain ⟨focus, found, same⟩ := Option.map_eq_some_iff.1 part
      split at children
      next interior =>
        obtain rfl := Option.some.inj children
        have single := once.count_le_one (List.mem_append_right front (.head back)) rfl
        rw [← same] at interior takes
        obtain ⟨rfl, -⟩ := Forest.exists_focused found root.site .interior
        have focused : focus? ⟨front ++ root :: back⟩ ⟨root.id, some focus.part.id⟩ =
            some ⟨focus.part.children, exchanged front back root focus⟩ :=
          focus?_node before found interior
        rw [patch, focused, Forest.modifyAt, ← Forest.replace_eq_modify found single f, takes]
      next => exact absurd children (by simp)

/-- What a patch comes to does not depend on what the container lists. -/
theorem patch_eq_modify_patched (roots : (w.roots.map Root.id).Nodup)
    (once : w.HasOnce container) {present : Forest} (members : w.members? container = some present)
    (after : Forest) :
    w.patch container after = .ok (w.modify container (Forest.patched · after)) :=
  patch_eq_modify roots once members rfl

end Workspace

end Outline

import Outline.Proofs.Patching

/-!
# Revised lists

What becomes of a valid workspace when the list of one container is replaced.  Most operations
keep some members of the list, let others go and take in new ones, and number the outcome:
`Outline.Workspace.Window.valid_renumber` says when this keeps a workspace valid,
`Outline.Workspace.Window.ascending_renumber` when it keeps the lists in ascending order.  A
forest that moves elsewhere keeps the rules if the shape there accepts its members
(`Outline.Forest.sound_rebased`).
-/

namespace Outline

theorem Ordered.isDense_congr {α β : Type} [Ordered α] [Ordered β] {xs : List α} {ys : List β}
    (same : xs.map Ordered.order = ys.map Ordered.order) :
    Ordered.isDense xs = Ordered.isDense ys := by
  have length : xs.length = ys.length := by simpa using congrArg List.length same
  rw [Bool.eq_iff_iff, isDense_iff_perm, isDense_iff_perm, same, length]

namespace Workspace

/-- All lists, of roots and of siblings, are listed in strictly ascending order. -/
structure Ascending (w : Workspace) : Prop where
  roots : w.roots.Pairwise (·.order < ·.order)
  tops : ∀ root ∈ w.roots, root.members.Pairwise (·.order < ·.order)
  children : ∀ m ∈ w.members, m.children.Pairwise (·.order < ·.order)

end Workspace

/-- The siblings of the level are listed in strictly ascending order. -/
def Level.Ascending (level : Level) : Prop :=
  level.members.Pairwise (·.order < ·.order)

namespace Forest

theorem ascending_shallow {ms : Forest} {site : Site} {owner : Kind} :
    Level.Ascending ⟨site, owner, ms.map Member.shallow⟩ ↔ ms.Pairwise (·.order < ·.order) :=
  List.pairwise_map

theorem ascending_innerLevels {ms : Forest} {site : Site} :
    (∀ level ∈ innerLevels ms site, level.Ascending) ↔
      ∀ m ∈ subtrees ms, m.children.Pairwise (·.order < ·.order) := by
  induction ms using Forest.induct generalizing site with
  | nil => simp [innerLevels]
  | cons m ms inner later =>
      rw [innerLevels_cons, Member.levels_eq, levels, List.forall_mem_append, later, subtrees_cons,
        List.forall_mem_cons, List.forall_mem_cons, List.forall_mem_append, inner,
        ascending_shallow, and_assoc]

theorem ascending_levels {ms : Forest} {site : Site} {owner : Kind} :
    (∀ level ∈ levels ms site owner, level.Ascending) ↔ ms.Pairwise (·.order < ·.order) ∧
      ∀ m ∈ subtrees ms, m.children.Pairwise (·.order < ·.order) := by
  rw [levels, List.forall_mem_cons, ascending_innerLevels, ascending_shallow]

@[simp] theorem map_order_rebased (ms : Forest) (parent : Path) :
    (rebased ms parent).map Member.order = ms.map Member.order := by
  simp [rebased_eq_map]

/-- Other paths leave every list in its order. -/
theorem ascending_rebased {ms : Forest} {site site' : Site} (parent : Path)
    (ascending : ∀ level ∈ innerLevels ms site, level.Ascending) :
    ∀ level ∈ innerLevels (rebased ms parent) site', level.Ascending := by
  induction ms using Forest.induct generalizing site site' parent with
  | nil => simp [innerLevels]
  | cons m ms inner later =>
      rw [innerLevels_cons, Member.levels_eq, levels, List.forall_mem_append,
        List.forall_mem_cons, ascending_shallow] at ascending
      obtain ⟨⟨children, below⟩, after⟩ := ascending
      rw [rebased, innerLevels_cons, Member.levels_eq, levels, List.forall_mem_append,
        List.forall_mem_cons, ascending_shallow, Member.children_rebased]
      refine ⟨⟨?_, inner _ below⟩, later _ after⟩
      apply List.pairwise_map.1
      rw [map_order_rebased]
      exact List.pairwise_map.2 children

theorem sound_rebased_list {ms : Forest} {site site' : Site} {owner : Kind}
    (sound : Level.Sound ⟨site, owner, ms.map Member.shallow⟩)
    (fits : ∀ kind, site.shape.accepts site.depth kind = true →
      site'.shape.accepts site'.depth kind = true) :
    Level.Sound ⟨site', owner, (rebased ms site'.path).map Member.shallow⟩ where
  dense := by
    rw [isDense_shallow, ← sound.dense, isDense_shallow]
    exact Ordered.isDense_congr (map_order_rebased ms site'.path)
  names := by
    have same : ((rebased ms site'.path).map Member.shallow).map (fun m => Text.lower m.name) =
        (ms.map Member.shallow).map fun m => Text.lower m.name := by
      simp only [List.map_map, rebased_eq_map]
      apply List.map_congr_left
      intro m _
      exact congrArg Text.lower (m.name_rebased site'.path)
    exact same ▸ sound.names
  paths := by
    rw [List.forall_mem_map, rebased_eq_map, List.forall_mem_map]
    intro m _
    change (m.rebased site'.path).path = site'.path.child (m.rebased site'.path).name
    rw [Member.path_rebased, Member.name_rebased]
  kinds := by
    rw [List.forall_mem_map, rebased_eq_map, List.forall_mem_map]
    intro m member
    change site'.shape.accepts site'.depth (m.rebased site'.path).kind = true
    rw [Member.kind_rebased]
    exact fits m.kind (sound.kinds m.shallow (List.mem_map_of_mem member))
  childless leaf := by
    have none : ms.map Member.shallow = [] := sound.childless leaf
    rw [List.map_eq_nil_iff] at none
    rw [none]
    rfl

/-- A sound forest is sound elsewhere, once its paths are derived anew, if the shape there accepts
at each depth what the shape here does. -/
theorem sound_rebased {ms : Forest} {site site' : Site}
    (sound : ∀ level ∈ innerLevels ms site, level.Sound)
    (fits : ∀ n kind, site.shape.accepts (site.depth + 1 + n) kind = true →
      site'.shape.accepts (site'.depth + 1 + n) kind = true) :
    ∀ level ∈ innerLevels (rebased ms site'.path) site', level.Sound := by
  induction ms using Forest.induct generalizing site site' with
  | nil => simp [innerLevels]
  | cons m ms inner later =>
      rw [innerLevels_cons, Member.levels_eq, levels, List.forall_mem_append,
        List.forall_mem_cons] at sound
      obtain ⟨⟨children, below⟩, after⟩ := sound
      rw [rebased, innerLevels_cons, Member.levels_eq, levels, List.forall_mem_append,
        List.forall_mem_cons, Member.children_rebased, Member.id_rebased, Member.name_rebased,
        Member.kind_rebased]
      refine ⟨⟨?_, ?_⟩, later after fits⟩
      · exact @sound_rebased_list _ _ (site'.below m.id m.name) _ children (fits 0)
      · apply @inner _ (site'.below m.id m.name) below
        intro n kind accepted
        have deeper := fits (n + 1) kind
        simp only [Site.below] at accepted ⊢
        rw [show site.depth + 1 + 1 + n = site.depth + 1 + (n + 1) by omega] at accepted
        rw [show site'.depth + 1 + 1 + n = site'.depth + 1 + (n + 1) by omega]
        exact deeper accepted

end Forest

namespace Member

variable {m : Member} {site site' : Site} (name : String)

/-- What is below a member stays sound when the member takes another name or another place. -/
theorem sound_rebased (sound : ∀ level ∈ m.levels site, level.Sound)
    (fits : ∀ n kind, site.shape.accepts (site.depth + 1 + n) kind = true →
      site'.shape.accepts (site'.depth + 1 + n) kind = true) :
    ∀ level ∈ (Member.rebased { m with name := name } site'.path).levels site', level.Sound := by
  rw [levels_eq, Forest.levels, List.forall_mem_cons] at sound
  rw [levels_eq, id_rebased, name_rebased, kind_rebased, children_rebased, Forest.levels,
    List.forall_mem_cons]
  refine ⟨?_, ?_⟩
  · exact @Forest.sound_rebased_list _ _ (site'.below m.id name) _ sound.1 (fits 0)
  · apply @Forest.sound_rebased _ _ (site'.below m.id name) sound.2
    intro n kind accepted
    have deeper := fits (n + 1) kind
    simp only [Site.below] at accepted ⊢
    rw [show site.depth + 1 + 1 + n = site.depth + 1 + (n + 1) by omega] at accepted
    rw [show site'.depth + 1 + 1 + n = site'.depth + 1 + (n + 1) by omega]
    exact deeper accepted

theorem ascending_rebased (ascending : ∀ level ∈ m.levels site, level.Ascending) :
    ∀ level ∈ (Member.rebased { m with name := name } site'.path).levels site',
      level.Ascending := by
  rw [levels_eq, Forest.levels, List.forall_mem_cons, Forest.ascending_shallow] at ascending
  rw [levels_eq, children_rebased, Forest.levels, List.forall_mem_cons, Forest.ascending_shallow]
  refine ⟨?_, Forest.ascending_rebased _ ascending.2⟩
  apply List.pairwise_map.1
  rw [Forest.map_order_rebased]
  exact List.pairwise_map.2 ascending.1

end Member

namespace Workspace

variable {w : Workspace} {container : Container} {present : Forest} {site : Site}
  {frame : List Level} {put : Forest → Workspace}

theorem ascending_iff : w.Ascending ↔ w.roots.Pairwise (·.order < ·.order) ∧
    ∀ level ∈ w.levels, level.Ascending := by
  constructor
  · intro ascending
    refine ⟨ascending.roots, fun level inside => ?_⟩
    obtain ⟨root, member, inside⟩ := List.mem_flatMap.1 inside
    refine Forest.ascending_levels.2 ⟨ascending.tops root member, fun m below => ?_⟩ level inside
    exact ascending.children m (List.mem_flatMap.2 ⟨root, member, below⟩)
  · rintro ⟨roots, levels⟩
    have each : ∀ root ∈ w.roots, _ := fun root member =>
      Forest.ascending_levels.1 fun level inside =>
        levels level (List.mem_flatMap.2 ⟨root, member, inside⟩)
    refine ⟨roots, fun root member => (each root member).1, fun m inside => ?_⟩
    obtain ⟨root, member, below⟩ := List.mem_flatMap.1 inside
    exact (each root member).2 m below

/-- What ignores the members is the same for roots that differ only in them. -/
theorem map_roots_eq {β : Type} {f : Root → β} (ignores : ∀ r, f r.shallow = f r) {w' : Workspace}
    (same : w'.roots.map Root.shallow = w.roots.map Root.shallow) :
    w'.roots.map f = w.roots.map f := by
  have mapped := congrArg (List.map f) same
  rwa [List.map_map, List.map_map, show f ∘ Root.shallow = f from funext ignores] at mapped

namespace Window

variable (window : w.Window container present site frame put)

include window

/-- Another list keeps a workspace valid if it keeps the rules itself, and all below it does. -/
theorem valid_put (valid : w.Valid) {ms : Forest}
    (list : Level.Sound ⟨site, .interior, ms.map Member.shallow⟩)
    (inner : ∀ level ∈ Forest.innerLevels ms site, level.Sound)
    (distinct : (Forest.ids ms ++ frame.flatMap Level.ids).Nodup) : (put ms).Valid where
  flawless := by
    refine defects_eq_nil_iff.2 ⟨?_, fun level inside => ?_⟩
    · rw [← valid.dense]
      exact Ordered.isDense_congr (map_roots_eq (fun _ => rfl) (window.put_roots ms))
    · rcases List.mem_append.1 ((window.put_levels ms).mem_iff.1 inside) with own | outside
      · rcases List.mem_cons.1 own with rfl | below
        · exact list
        · exact inner level below
      · exact valid.sound (window.levels.mem_iff.2 (List.mem_append_right _ outside))
  roots_distinct := by
    rw [map_roots_eq (fun _ => rfl) (window.put_roots ms)]
    exact valid.roots_distinct
  members_distinct := by
    have perm := (put ms).ids_perm_levels.trans ((window.put_levels ms).flatMap_right Level.ids)
    rw [List.flatMap_append] at perm
    rw [perm.nodup_iff]
    exact ((Forest.ids_perm_levels ms site .interior).append_right _).nodup_iff.1 distinct

theorem ascending_put (ascending : w.Ascending) {ms : Forest}
    (list : ms.Pairwise (·.order < ·.order))
    (inner : ∀ level ∈ Forest.innerLevels ms site, level.Ascending) : (put ms).Ascending := by
  obtain ⟨roots, levels⟩ := ascending_iff.1 ascending
  refine ascending_iff.2 ⟨?_, fun level inside => ?_⟩
  · apply List.pairwise_map.1
    rw [map_roots_eq (fun _ => rfl) (window.put_roots ms)]
    exact List.pairwise_map.2 roots
  · rcases List.mem_append.1 ((window.put_levels ms).mem_iff.1 inside) with own | outside
    · rcases List.mem_cons.1 own with rfl | below
      · exact Forest.ascending_shallow.2 list
      · exact inner level below
    · exact levels level (window.levels.mem_iff.2 (List.mem_append_right _ outside))

/-- The identifiers of a workspace, those below the window first. -/
theorem ids_perm : w.ids.Perm (Forest.ids present ++ frame.flatMap Level.ids) := by
  apply (w.ids_perm_levels.trans (window.levels.flatMap_right Level.ids)).trans
  rw [List.flatMap_append]
  exact (Forest.ids_perm_levels present site .interior).symm.append_right _

theorem put_ids_perm (ms : Forest) :
    (put ms).ids.Perm (Forest.ids ms ++ frame.flatMap Level.ids) := by
  apply ((put ms).ids_perm_levels.trans ((window.put_levels ms).flatMap_right Level.ids)).trans
  rw [List.flatMap_append]
  exact (Forest.ids_perm_levels ms site .interior).symm.append_right _

variable {kept gone new list : Forest}

/-- The levels of a workspace when members are told apart into some to keep and some to let go. -/
theorem levels_split (split : present.Perm (kept ++ gone)) : w.levels.Perm
    (⟨site, .interior, present.map Member.shallow⟩ ::
      (Forest.innerLevels kept site ++ Forest.innerLevels gone site ++ frame)) := by
  apply window.levels.trans
  rw [Forest.levels, List.cons_append, ← Forest.innerLevels_append]
  exact ((Forest.innerLevels_perm split site).append_right _).cons _

/-- The levels once the members kept and the newcomers are numbered anew. -/
theorem levels_renumber (listed : list.Perm (kept ++ new)) :
    (put (Ordered.renumber list)).levels.Perm
      (⟨site, .interior, (Ordered.renumber list).map Member.shallow⟩ ::
        (Forest.innerLevels kept site ++ Forest.innerLevels new site ++ frame)) := by
  apply (window.put_levels _).trans
  rw [Forest.levels, List.cons_append, ← Forest.innerLevels_append, Forest.innerLevels_renumber]
  exact ((Forest.innerLevels_perm listed site).append_right _).cons _

/-- Numbering the members kept and the newcomers anew keeps a workspace valid. -/
theorem valid_renumber (valid : w.Valid) (split : present.Perm (kept ++ gone))
    (listed : list.Perm (kept ++ new))
    (names : ((kept ++ new).map fun m => Text.lower m.name).Nodup)
    (paths : ∀ m ∈ new, m.path = site.path.child m.name)
    (kinds : ∀ m ∈ new, site.shape.accepts site.depth m.kind = true)
    (inner : ∀ level ∈ Forest.innerLevels new site, level.Sound)
    (fresh : (Forest.ids new ++ w.ids).Nodup) : (put (Ordered.renumber list)).Valid := by
  have own := Forest.sound_iff.1 (valid.sound window.level_mem)
  have from_list : ∀ m ∈ Ordered.renumber list, ∃ x ∈ kept ++ new,
      m.name = x.name ∧ m.path = x.path ∧ m.kind = x.kind := by
    intro m member
    obtain ⟨x, inside, n, rfl⟩ := Ordered.mem_renumber member
    exact ⟨x, listed.mem_iff.1 inside, rfl, rfl, rfl⟩
  have of_kept : ∀ x ∈ kept, x ∈ present := fun x inside =>
    split.mem_iff.2 (List.mem_append_left _ inside)
  refine window.valid_put valid (Forest.sound_iff.2 ⟨?_, ?_, ?_, ?_⟩) ?_ ?_
  · exact Ordered.isDense_renumber list
  · rw [Ordered.map_renumber_eq (f := fun m : Member => Text.lower m.name) fun _ _ => rfl]
    exact (listed.map _).nodup_iff.2 names
  · intro m member
    obtain ⟨x, inside, name, path, -⟩ := from_list m member
    rw [name, path]
    rcases List.mem_append.1 inside with inside | inside
    · exact own.2.2.1 x (of_kept x inside)
    · exact paths x inside
  · intro m member
    obtain ⟨x, inside, -, -, kind⟩ := from_list m member
    rw [kind]
    rcases List.mem_append.1 inside with inside | inside
    · exact own.2.2.2 x (of_kept x inside)
    · exact kinds x inside
  · intro level inside
    rw [Forest.innerLevels_renumber, (Forest.innerLevels_perm listed site).mem_iff,
      Forest.innerLevels_append, List.mem_append] at inside
    rcases inside with inside | inside
    · refine valid.sound ((window.levels_split split).mem_iff.2 (.tail _ ?_))
      exact List.mem_append_left _ (List.mem_append_left _ inside)
    · exact inner level inside
  · rw [Forest.ids_renumber]
    have all := ((window.ids_perm.trans ((Forest.ids_perm split).append_right _)).append_left
      (Forest.ids new)).nodup_iff.1 fresh
    have some : (Forest.ids new ++ (Forest.ids kept ++ frame.flatMap Level.ids)).Nodup := by
      refine all.sublist (.append_left (.append_right ?_ _) _)
      rw [Forest.ids_append]
      exact List.sublist_append_left ..
    have perm : (Forest.ids list ++ frame.flatMap Level.ids).Perm
        (Forest.ids new ++ (Forest.ids kept ++ frame.flatMap Level.ids)) := by
      apply ((Forest.ids_perm listed).append_right _).trans
      rw [Forest.ids_append, List.append_assoc]
      exact List.perm_append_comm_assoc ..
    exact perm.nodup_iff.2 some

/-- Numbering anew keeps all lists in ascending order if what comes in is listed so below. -/
theorem ascending_renumber (ascending : w.Ascending) (split : present.Perm (kept ++ gone))
    (listed : list.Perm (kept ++ new))
    (inner : ∀ level ∈ Forest.innerLevels new site, level.Ascending) :
    (put (Ordered.renumber list)).Ascending := by
  apply window.ascending_put ascending (Ordered.pairwise_lt_renumber list)
  intro level inside
  rw [Forest.innerLevels_renumber, (Forest.innerLevels_perm listed site).mem_iff,
    Forest.innerLevels_append, List.mem_append] at inside
  rcases inside with inside | inside
  · refine (ascending_iff.1 ascending).2 level ((window.levels_split split).mem_iff.2 (.tail _ ?_))
    exact List.mem_append_left _ (List.mem_append_left _ inside)
  · exact inner level inside

end Window

end Workspace

end Outline

import Mathlib.Data.List.Perm.Basic
import Outline.Defect
import Outline.Proofs.Forest

/-!
# Levels

A workspace seen as its lists of siblings, one level for each container, every list with the place
where it stands and without what is below it.  Replacing the list of a container exchanges the
levels below that container and leaves all others, so that levels, unlike the trees they come
from, can be reasoned about as a multiset.  `Outline.Workspace.rows_perm_levels` reads the rows
off the levels, and `Outline.Workspace.level_ext` says that each container has one level.
-/

namespace Outline

/-- A list of siblings without their children, with its place and the kind of the member that owns
it; a root counts as interior. -/
structure Level where
  site : Site
  owner : Kind
  members : Forest

namespace Level

/-- The container that owns the list. -/
def container (level : Level) : Container :=
  level.site.container

/-- The rows of the siblings. -/
def rows (level : Level) : List Row :=
  level.members.map (·.row level.container)

/-- The identifiers of the siblings. -/
def ids (level : Level) : List Id :=
  level.members.map Member.id

end Level

/-- The level of a list that a root or an interior member owns at a place. -/
abbrev Site.level (site : Site) (ms : Forest) : Level where
  site := site
  owner := .interior
  members := ms.map Member.shallow

mutual

/-- The levels below a member that stands at `site`, its own children first. -/
def Member.levels : Member → Site → List Level
  | ⟨id, name, _, kind, _, children⟩, site =>
    { site := site.below id name, owner := kind, members := children.map Member.shallow } ::
      Forest.innerLevels children (site.below id name)

/-- The levels below the members that stand at `site`. -/
def Forest.innerLevels : List Member → Site → List Level
  | [], _ => []
  | m :: ms, site => m.levels site ++ Forest.innerLevels ms site

end

/-- The levels of a forest at `site` owned by a member of the given kind: its own list first. -/
def Forest.levels (ms : Forest) (site : Site) (owner : Kind) : List Level :=
  { site, owner, members := ms.map Member.shallow } :: Forest.innerLevels ms site

namespace Workspace

variable (w : Workspace)

/-- The levels of all roots. -/
def levels : List Level :=
  w.roots.flatMap fun root => Forest.levels root.members root.site .interior

/-- All members, at any depth. -/
def members : List Member :=
  w.roots.flatMap fun root => Forest.subtrees root.members

/-- The identifiers of all members. -/
def ids : List Id :=
  w.roots.flatMap fun root => Forest.ids root.members

end Workspace

theorem Member.levels_eq (m : Member) (site : Site) :
    m.levels site = Forest.levels m.children (site.below m.id m.name) m.kind := by
  cases m
  rfl

namespace Forest

theorem innerLevels_cons (m : Member) (ms : Forest) (site : Site) :
    innerLevels (m :: ms) site = m.levels site ++ innerLevels ms site := rfl

theorem innerLevels_singleton (m : Member) (site : Site) :
    innerLevels [m] site = m.levels site := by
  rw [innerLevels_cons, innerLevels, List.append_nil]

theorem innerLevels_eq_flatMap (ms : Forest) (site : Site) :
    innerLevels ms site = ms.flatMap (·.levels site) := by
  induction ms with
  | nil => rfl
  | cons m ms ih => rw [innerLevels_cons, ih, List.flatMap_cons]

theorem innerLevels_append (ms ns : Forest) (site : Site) :
    innerLevels (ms ++ ns) site = innerLevels ms site ++ innerLevels ns site := by
  simp only [innerLevels_eq_flatMap, List.flatMap_append]

theorem innerLevels_perm {ms ns : Forest} (same : ms.Perm ns) (site : Site) :
    (innerLevels ms site).Perm (innerLevels ns site) := by
  rw [innerLevels_eq_flatMap, innerLevels_eq_flatMap]
  exact same.flatMap_right _

/-- The levels below a list are those below it with other numbers. -/
theorem innerLevels_renumber (ms : Forest) (site : Site) :
    innerLevels (Ordered.renumber ms) site = innerLevels ms site := by
  have ignores : ∀ (n : Nat) (ms : Forest),
      innerLevels (Ordered.numberFrom n ms) site = innerLevels ms site := by
    intro n ms
    induction ms generalizing n with
    | nil => rfl
    | cons m ms ih =>
        rw [Ordered.numberFrom, innerLevels_cons, innerLevels_cons, ih]
        cases m
        rfl
  exact ignores 1 ms

theorem ids_renumber (ms : Forest) : ids (Ordered.renumber ms) = ids ms := by
  have ignores : ∀ (n : Nat) (ms : Forest), ids (Ordered.numberFrom n ms) = ids ms := by
    intro n ms
    induction ms generalizing n with
    | nil => rfl
    | cons m ms ih =>
        rw [Ordered.numberFrom, ids_cons, ids_cons, ih]
        rfl
  exact ignores 1 ms

/-- The rows of a forest are those of its levels. -/
theorem rows_perm_levels (ms : Forest) (site : Site) (owner : Kind) :
    (rows ms site.container).Perm ((levels ms site owner).flatMap Level.rows) := by
  induction ms using Forest.induct generalizing site owner with
  | nil => exact .refl _
  | cons m ms inner later =>
      have below := inner (site.below m.id m.name) m.kind
      have after := later site owner
      rw [levels, List.flatMap_cons] at after ⊢
      rw [rows_cons, innerLevels_cons, Member.levels_eq, List.flatMap_append]
      -- The children's rows stand before those of the later siblings, their levels after.
      exact .cons _ ((below.append after).trans (List.perm_append_comm_assoc ..))

theorem ids_perm_levels (ms : Forest) (site : Site) (owner : Kind) :
    (ids ms).Perm ((levels ms site owner).flatMap Level.ids) := by
  rw [← map_id_rows ms site.container]
  refine ((rows_perm_levels ms site owner).map _).trans (.of_eq ?_)
  simp only [List.map_flatMap, Level.rows, List.map_map]
  rfl

/-- The containers of the levels are the forest's own and those that its members are. -/
theorem map_container_levels_perm (ms : Forest) (site : Site) (owner : Kind) :
    ((levels ms site owner).map Level.container).Perm
      (site.container :: (ids ms).map (.ofNode site.container.root)) := by
  induction ms using Forest.induct generalizing site owner with
  | nil => exact .refl _
  | cons m ms inner later =>
      have below := inner (site.below m.id m.name) m.kind
      have after := (List.perm_cons _).1 (later site owner)
      simp only [levels, innerLevels_cons, Member.levels_eq, ids_cons, List.map_cons,
        List.map_append] at below ⊢
      exact .cons _ (below.append after)

/-- Every level below a forest holds the children of one of its members. -/
theorem exists_mem_subtrees_of_level {ms : Forest} {site : Site} {level : Level}
    (inside : level ∈ innerLevels ms site) : ∃ m ∈ subtrees ms, ∃ above : Site,
      above.container.root = site.container.root ∧ level.site = above.below m.id m.name ∧
      level.owner = m.kind ∧ level.members = m.children.map Member.shallow := by
  induction ms using Forest.induct generalizing site with
  | nil => exact absurd inside List.not_mem_nil
  | cons n ns inner later =>
      rw [innerLevels_cons, Member.levels_eq, levels] at inside
      rw [subtrees_cons]
      rcases List.mem_append.1 inside with below | after
      · rcases List.mem_cons.1 below with rfl | deeper
        · exact ⟨n, .head _, site, rfl, rfl, rfl, rfl⟩
        · obtain ⟨m, member, above, root, rest⟩ := inner deeper
          exact ⟨m, .tail _ (List.mem_append_left _ member), above, root, rest⟩
      · obtain ⟨m, member, rest⟩ := later after
        exact ⟨m, .tail _ (List.mem_append_right _ member), rest⟩

end Forest

namespace Workspace

variable {w : Workspace}

theorem ids_eq_map_members (w : Workspace) : w.ids = w.members.map Member.id := by
  simp only [ids, members, List.map_flatMap]
  rfl

theorem rows_perm_levels (w : Workspace) : w.rows.Perm (w.levels.flatMap Level.rows) := by
  rw [rows, levels, List.flatMap_assoc]
  exact List.Perm.flatMap_left _ fun root _ => Forest.rows_perm_levels root.members root.site _

theorem map_id_rows (w : Workspace) : w.rows.map Row.id = w.ids := by
  simp only [rows, ids, List.map_flatMap, Forest.map_id_rows]

theorem id_mem_of_mem_rows {w : Workspace} {row : Row} (inside : row ∈ w.rows) :
    row.id ∈ w.ids := by
  rw [← map_id_rows]
  exact List.mem_map_of_mem inside

theorem exists_row_of_mem_ids {w : Workspace} {id : Id} (known : id ∈ w.ids) :
    ∃ row ∈ w.rows, row.id = id := by
  rw [← map_id_rows] at known
  exact List.mem_map.1 known

theorem ids_perm_levels (w : Workspace) : w.ids.Perm (w.levels.flatMap Level.ids) := by
  rw [← map_id_rows]
  refine (w.rows_perm_levels.map _).trans (.of_eq ?_)
  simp only [List.map_flatMap, Level.rows, List.map_map]
  rfl

/-- Each container has its own level, if identifiers are distinct. -/
theorem nodup_map_container (roots : (w.roots.map Root.id).Nodup) (members : w.ids.Nodup) :
    (w.levels.map Level.container).Nodup := by
  have perm : (w.levels.map Level.container).Perm (w.roots.flatMap fun root =>
      root.container :: (Forest.ids root.members).map (.ofNode root.id)) := by
    rw [levels, List.map_flatMap]
    exact List.Perm.flatMap_left _ fun root _ =>
      Forest.map_container_levels_perm root.members root.site _
  rw [perm.nodup_iff, List.nodup_flatMap]
  have apart := List.nodup_flatMap.1 members
  constructor
  · intro root member
    refine List.nodup_cons.2 ⟨fun inside => ?_, ?_⟩
    · obtain ⟨node, -, same⟩ := List.mem_map.1 inside
      exact absurd (congrArg Container.node same) (Option.some_ne_none _)
    · exact (apart.1 root member).map fun a b same =>
        Option.some.inj (congrArg Container.node same)
  · refine (List.pairwise_map.1 roots).imp fun {a b} differ => ?_
    have rootOf : ∀ (r : Root) (c : Container),
        c ∈ r.container :: (Forest.ids r.members).map (.ofNode r.id) → c.root = r.id := by
      intro r c inside
      rcases List.mem_cons.1 inside with rfl | inside
      · rfl
      · obtain ⟨node, -, rfl⟩ := List.mem_map.1 inside
        rfl
    intro c inA inB
    exact differ ((rootOf a c inA).symm.trans (rootOf b c inB))

/-- A container's level is the only one with that container. -/
theorem level_ext (roots : (w.roots.map Root.id).Nodup) (members : w.ids.Nodup) {a b : Level}
    (inA : a ∈ w.levels) (inB : b ∈ w.levels) (same : a.container = b.container) : a = b :=
  List.inj_on_of_nodup_map (nodup_map_container roots members) inA inB same

theorem mem_members_of_mem_children {m x : Member} (member : m ∈ w.members)
    (child : x ∈ m.children) : x ∈ w.members := by
  obtain ⟨root, listed, inside⟩ := List.mem_flatMap.1 member
  refine List.mem_flatMap.2 ⟨root, listed, ?_⟩
  exact Forest.mem_subtrees_trans inside (Forest.mem_subtrees_of_mem child)

theorem eq_of_id_eq (distinct : w.ids.Nodup) {m n : Member} (inM : m ∈ w.members)
    (inN : n ∈ w.members) (same : m.id = n.id) : m = n := by
  rw [ids_eq_map_members] at distinct
  exact List.inj_on_of_nodup_map distinct inM inN same

theorem mem_ids_of_mem_members {m : Member} (member : m ∈ w.members) : m.id ∈ w.ids := by
  rw [ids_eq_map_members]
  exact List.mem_map_of_mem member

end Workspace

end Outline

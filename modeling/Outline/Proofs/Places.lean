import Outline.Proofs.Windows

/-!
# Places

Who owns which list, and where it stands, told by going down from the roots and without any search.
With distinct identifiers the look-ups agree with it: a container is found exactly if it is a root
or an interior member (`Outline.Workspace.members?_eq_some_iff`), and a search finds a member where
it stands (`Outline.Workspace.Stands.locateIn?_eq`, `Outline.Workspace.stands_of_locateIn?`).
-/

namespace Outline

namespace Workspace

/-- A root, or a member of the given kind, owns the list, which stands at the place.  A root counts
as interior. -/
inductive Owns (w : Workspace) : Site → Kind → Forest → Prop where
  | root {r : Root} (listed : r ∈ w.roots) : Owns w r.site .interior r.members
  | member {site : Site} {owner : Kind} {ms : Forest} {m : Member} (owned : Owns w site owner ms)
      (listed : m ∈ ms) : Owns w (site.below m.id m.name) m.kind m.children

/-- The member is in the list that stands at the place. -/
def Stands (w : Workspace) (m : Member) (site : Site) : Prop :=
  ∃ owner ms, w.Owns site owner ms ∧ m ∈ ms

variable {w : Workspace}

section

variable {site : Site} {owner : Kind} {ms : Forest}

namespace Owns

variable (owns : w.Owns site owner ms)

include owns

theorem mem_levels {level : Level} (inside : level ∈ Forest.levels ms site owner) :
    level ∈ w.levels := by
  induction owns with
  | root listed => exact List.mem_flatMap.2 ⟨_, listed, inside⟩
  | @member site owner ms m owned listed ih =>
      refine ih (.tail _ ?_)
      rw [Forest.innerLevels_eq_flatMap]
      exact List.mem_flatMap.2 ⟨m, listed, by rwa [Member.levels_eq]⟩

theorem level_mem : ⟨site, owner, ms.map Member.shallow⟩ ∈ w.levels :=
  owns.mem_levels (.head _)

/-- The list is part of the root that its place names. -/
theorem exists_root : ∃ r ∈ w.roots, r.id = site.container.root ∧ r.shape = site.shape ∧
    ∀ m ∈ ms, m ∈ Forest.subtrees r.members := by
  induction owns with
  | root listed => exact ⟨_, listed, rfl, rfl, fun m member => Forest.mem_subtrees_of_mem member⟩
  | member owned listed ih =>
      obtain ⟨r, here, named, shape, inside⟩ := ih
      refine ⟨r, here, named, shape, fun x child => ?_⟩
      exact Forest.mem_subtrees_trans (inside _ listed) (Forest.mem_subtrees_of_mem child)

theorem mem_members {m : Member} (listed : m ∈ ms) : m ∈ w.members := by
  obtain ⟨r, here, -, -, inside⟩ := owns.exists_root
  exact List.mem_flatMap.2 ⟨r, here, inside m listed⟩

/-- The levels below some members of the list belong to them and to members below them. -/
theorem exists_of_innerLevels {part : Forest} (listed : ∀ m ∈ part, m ∈ ms) {level : Level}
    (inside : level ∈ Forest.innerLevels part site) :
    ∃ ns, w.Owns level.site level.owner ns ∧ ns.map Member.shallow = level.members := by
  induction part using Forest.induct generalizing site owner ms with
  | nil => exact absurd inside List.not_mem_nil
  | cons m part inner later =>
      have own := owns.member (listed m (.head _))
      rw [Forest.innerLevels_cons, Member.levels_eq] at inside
      rcases List.mem_append.1 inside with below | after
      · rcases List.mem_cons.1 below with rfl | deeper
        · exact ⟨m.children, own, rfl⟩
        · exact inner own (fun _ member => member) deeper
      · exact later owns (fun x member => listed x (.tail _ member)) after

end Owns

/-- What is below some members of the list stands in the same root. -/
theorem Owns.exists_stands (owns : w.Owns site owner ms) {part : Forest}
    (listed : ∀ m ∈ part, m ∈ ms) {x : Member} (inside : x ∈ Forest.subtrees part) :
    ∃ place, w.Stands x place ∧ place.container.root = site.container.root := by
  induction part using Forest.induct generalizing site owner ms with
  | nil => exact absurd inside List.not_mem_nil
  | cons m part inner later =>
      rw [Forest.subtrees_cons] at inside
      rcases List.mem_cons.1 inside with rfl | inside
      · exact ⟨site, ⟨owner, ms, owns, listed x (.head _)⟩, rfl⟩
      rcases List.mem_append.1 inside with below | after
      · exact @inner (site.below m.id m.name) _ _ (owns.member (listed m (.head _)))
          (fun _ member => member) below
      · exact later owns (fun y member => listed y (.tail _ member)) after

/-- The root that a place names is found, if identifiers are distinct. -/
theorem Owns.exists_root? (owns : w.Owns site owner ms) (distinct : (w.roots.map Root.id).Nodup) :
    ∃ r, w.root? site.container.root = some r ∧ r.shape = site.shape ∧
      ∀ m ∈ ms, m ∈ Forest.subtrees r.members := by
  obtain ⟨r, here, named, shape, inside⟩ := owns.exists_root
  obtain ⟨front, back, split, before⟩ := exists_split distinct here
  exact ⟨r, root?_eq_some_iff.2 ⟨front, back, split, named, named ▸ before⟩, shape, inside⟩

/-- Every level is the list of a root or of a member. -/
theorem exists_owns_of_level {level : Level} (inside : level ∈ w.levels) :
    ∃ ms, w.Owns level.site level.owner ms ∧ ms.map Member.shallow = level.members := by
  obtain ⟨r, listed, inside⟩ := List.mem_flatMap.1 inside
  rcases List.mem_cons.1 inside with rfl | below
  · exact ⟨r.members, .root listed, rfl⟩
  · exact (Owns.root listed).exists_of_innerLevels (fun _ member => member) below

/-- Lists of members with distinct identifiers are the same if they are so apart from children. -/
theorem eq_of_map_shallow (distinct : w.ids.Nodup) {ms ns : Forest}
    (inMs : ∀ m ∈ ms, m ∈ w.members) (inNs : ∀ n ∈ ns, n ∈ w.members)
    (same : ms.map Member.shallow = ns.map Member.shallow) : ms = ns := by
  induction ms generalizing ns with
  | nil => exact (List.map_eq_nil_iff.1 same.symm).symm
  | cons m ms ih =>
      obtain ⟨n, ns, rfl, first, later⟩ := List.map_eq_cons_iff.1 same.symm
      have id : n.id = m.id := Member.id_eq_of_shallow first
      rw [List.forall_mem_cons] at inMs inNs
      rw [eq_of_id_eq distinct inMs.1 inNs.1 id.symm, ih inMs.2 inNs.2 later.symm]

end

/-- What is seen from a container is its list, where it stands. -/
theorem Window.owns {container : Container} {present : Forest} {site : Site} {frame : List Level}
    {put : Forest → Workspace} (window : w.Window container present site frame put)
    (members : w.ids.Nodup) : w.Owns site .interior present := by
  obtain ⟨ms, owns, same⟩ := exists_owns_of_level window.level_mem
  obtain rfl : ms = present := eq_of_map_shallow members
    (fun _ listed => owns.mem_members listed) window.listed same
  exact owns

section

variable (roots : (w.roots.map Root.id).Nodup) (members : w.ids.Nodup)

include roots members

/-- The containers whose members can be looked up are the roots and the interior members. -/
theorem members?_eq_some_iff {container : Container} {ms : Forest} :
    w.members? container = some ms ↔
      ∃ site, site.container = container ∧ w.Owns site .interior ms := by
  constructor
  · intro found
    obtain ⟨site, frame, put, window⟩ := exists_window found
    exact ⟨site, window.container_eq, window.owns members⟩
  · rintro ⟨site, rfl, owns⟩
    obtain ⟨ns, found, same⟩ := exists_members_of_level roots members owns.level_mem rfl
    obtain ⟨place, frame, put, window⟩ := exists_window found
    rw [← eq_of_map_shallow members window.listed (fun _ listed => owns.mem_members listed) same]
    exact found

/-- A container owns one list, at one place. -/
theorem Owns.ext {site site' : Site} {owner owner' : Kind} {ms ms' : Forest}
    (first : w.Owns site owner ms) (second : w.Owns site' owner' ms')
    (same : site.container = site'.container) : site = site' ∧ ms = ms' := by
  have level := level_ext roots members first.level_mem second.level_mem same
  exact ⟨congrArg Level.site level, eq_of_map_shallow members (fun _ => first.mem_members)
    (fun _ => second.mem_members) (congrArg Level.members level)⟩

theorem Owns.exists_window {site : Site} {ms : Forest} (owns : w.Owns site .interior ms) :
    ∃ frame put, w.Window site.container ms site frame put := by
  have found := (members?_eq_some_iff roots members).2 ⟨site, rfl, owns⟩
  obtain ⟨place, frame, put, window⟩ := Workspace.exists_window found
  have same := level_ext roots members window.level_mem owns.level_mem window.container_eq
  obtain rfl : place = site := congrArg Level.site same
  exact ⟨frame, put, window⟩

end

section

variable {m n : Member} {site place : Site}

theorem Stands.mem_members (stands : w.Stands m site) : m ∈ w.members := by
  obtain ⟨owner, ms, owns, listed⟩ := stands
  exact owns.mem_members listed

theorem Stands.row_mem (stands : w.Stands m site) : m.row site.container ∈ w.rows := by
  obtain ⟨owner, ms, owns, listed⟩ := stands
  refine w.rows_perm_levels.mem_iff.2 (List.mem_flatMap.2 ⟨_, owns.level_mem, ?_⟩)
  exact List.mem_map.2 ⟨m.shallow, List.mem_map_of_mem listed, rfl⟩

/-- Every row is that of a member where it stands. -/
theorem exists_stands_of_row {row : Row} (inside : row ∈ w.rows) :
    ∃ m site, w.Stands m site ∧ m.row site.container = row := by
  obtain ⟨level, listed, inside⟩ := List.mem_flatMap.1 (w.rows_perm_levels.mem_iff.1 inside)
  obtain ⟨ms, owns, same⟩ := exists_owns_of_level listed
  obtain ⟨_, shown, rfl⟩ := List.mem_map.1 inside
  rw [← same] at shown
  obtain ⟨m, member, rfl⟩ := List.mem_map.1 shown
  exact ⟨m, level.site, ⟨level.owner, ms, owns, member⟩, rfl⟩

variable (members : w.ids.Nodup)

include members

/-- Members with one identifier are listed by one container. -/
theorem Stands.container_ext (first : w.Stands m site) (second : w.Stands n place)
    (same : m.id = n.id) : site.container = place.container := by
  have distinct : (w.rows.map Row.id).Nodup := by rwa [map_id_rows]
  exact congrArg Row.parent
    (List.inj_on_of_nodup_map distinct first.row_mem second.row_mem same)

variable (roots : (w.roots.map Root.id).Nodup)

include roots

/-- Members that one container lists stand at one place. -/
theorem Stands.site_eq (first : w.Stands m site) (second : w.Stands n place)
    (same : site.container = place.container) : site = place := by
  obtain ⟨owner, ms, owns, -⟩ := first
  obtain ⟨owner', ns, owns', -⟩ := second
  exact congrArg Level.site (level_ext roots members owns.level_mem owns'.level_mem same)

omit roots in
/-- What a search finds stands at the place that it reports. -/
theorem stands_of_locateIn? {root id : Id} {found : Located}
    (search : w.locateIn? root id = some found) : found.member.id = id ∧ ∃ site,
      w.Stands found.member site ∧ site.container.root = root ∧
      site.container = found.container ∧ site.depth = found.depth ∧
      w.shape? found.container = some site.shape := by
  obtain ⟨named, in_root, level, holds⟩ := holds_of_locateIn? search
  obtain ⟨ms, owns, same⟩ := exists_owns_of_level holds.level_mem
  refine ⟨named, level.site, ⟨level.owner, ms, owns, ?_⟩, ?_, holds.container, holds.depth,
    holds.shape⟩
  · have listed := holds.listed
    rw [← same] at listed
    obtain ⟨m, member, fields⟩ := List.mem_map.1 listed
    have id : m.id = found.member.id := Member.id_eq_of_shallow fields
    rwa [← eq_of_id_eq members (owns.mem_members member) holds.member id]
  · rw [← in_root, ← holds.container]
    rfl

/-- A member is found where it stands. -/
theorem Stands.locateIn?_eq (stands : w.Stands m site) :
    w.locateIn? site.container.root m.id = some ⟨m, site.container, site.depth⟩ := by
  obtain ⟨owner, ms, owns, listed⟩ := id stands
  obtain ⟨r, root, -, inside⟩ := owns.exists_root? roots
  have present : (Forest.locate? r.members m.id r.container 0).isSome :=
    (Forest.locate?_isSome_iff ..).2 (List.mem_map_of_mem (inside m listed))
  obtain ⟨found, search⟩ := Option.isSome_iff_exists.1 present
  have search : w.locateIn? site.container.root m.id = some found := by
    rw [locateIn?, root, Option.bind_some, search]
  obtain ⟨same, place, there, -, container, depth, -⟩ := stands_of_locateIn? members search
  obtain rfl : site = place := stands.site_eq members roots there
    (stands.container_ext members there same.symm)
  obtain ⟨n, c, d⟩ := found
  obtain rfl : m = n := eq_of_id_eq members stands.mem_members there.mem_members same.symm
  dsimp only at container depth
  rw [search, container, depth]

omit members in
theorem Stands.shape?_eq (stands : w.Stands m site) :
    w.shape? site.container = some site.shape := by
  obtain ⟨owner, ms, owns, -⟩ := stands
  obtain ⟨r, root, shape, -⟩ := owns.exists_root? roots
  rw [shape?, root, Option.map_some, shape]

end

end Workspace

end Outline

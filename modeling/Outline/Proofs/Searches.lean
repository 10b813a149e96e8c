import Mathlib.Data.List.Basic
import Outline.Proofs.Replacements

/-!
# Searches

Members are searched for with the container that lists them, containers are looked up to be read,
and focused on to be written.  All of these pick the same part of a workspace, even where
identifiers repeat (`Outline.Workspace.replace_of_focus?`), and with distinct identifiers it is the
part that is met by going down from the roots (`Outline.Workspace.Searches`,
`Outline.Workspace.lookUps_agree`).
-/

namespace Outline

namespace Forest

/-- A forest holds no fewer members than one of its subtrees. -/
theorem length_subtree_le {ms : Forest} {m : Member} (member : m ∈ subtrees ms) :
    m.subtree.length ≤ (subtrees ms).length := by
  induction ms using Forest.induct with
  | nil => exact absurd member List.not_mem_nil
  | cons n ns inner later =>
      rw [subtrees, List.length_append]
      rw [subtrees_cons] at member
      rcases List.mem_cons.1 member with rfl | inside
      · exact Nat.le_add_right ..
      · rcases List.mem_append.1 inside with below | after
        · have := inner below
          rw [Member.subtree_eq n, List.length_cons]
          omega
        · have := later after
          omega

end Forest

/-- No member is below itself, so that a member contains the identifiers of the others in its
subtree. -/
theorem Member.contains_iff_subtree (m : Member) (id : Id) :
    m.contains id = true ↔ ∃ n ∈ m.subtree, n ≠ m ∧ n.id = id := by
  have outside : m ∉ Forest.subtrees m.children := fun inside => by
    have shorter := Forest.length_subtree_le inside
    rw [Member.subtree_eq, List.length_cons] at shorter
    exact absurd shorter (Nat.not_succ_le_self _)
  rw [contains_iff, Forest.ids, List.mem_map, subtree_eq]
  constructor
  · rintro ⟨n, below, named⟩
    exact ⟨n, .tail _ below, fun same => outside (same ▸ below), named⟩
  · rintro ⟨n, inside, other, named⟩
    exact ⟨n, (List.mem_cons.1 inside).resolve_left other, named⟩

namespace Workspace

variable {w : Workspace}

/-- What is put where a container is in focus is looked up there, and what has been there changes
nothing. -/
theorem replace_of_focus? {container : Container} {focus : Focus Workspace Forest}
    (found : w.focus? container = some focus) : focus.replace focus.part = w ∧
      ∀ ms, (focus.replace ms).members? container = some ms := by
  obtain ⟨_, here, inside⟩ := Option.bind_eq_some_iff.1 found
  obtain ⟨_, there, rfl⟩ := Option.map_eq_some_iff.1 here
  obtain ⟨front, root, back, split, named, before, rfl⟩ := focusRoot?_eq_some_iff.1 there
  obtain ⟨roots⟩ := w
  obtain ⟨rootId, node⟩ := container
  dsimp only at split named inside
  subst split named
  cases node with
  | none =>
      obtain rfl := Option.some.inj inside
      exact ⟨rfl, fun ms => (@exists_window_root front back (root.withMembers ms) before).members⟩
  | some node =>
      obtain ⟨owner, shown, interior⟩ := Option.bind_eq_some_iff.1 inside
      split at interior
      next kind =>
        obtain rfl := Option.some.inj interior
        obtain ⟨rfl, place, frame, focused⟩ := Forest.exists_focused shown root.site .interior
        refine ⟨?_, members?_exchanged before focused kind⟩
        dsimp only
        rw [Member.mk_eta, focused.same]
        rfl
      next => cases interior

section

variable (roots : (w.roots.map Root.id).Nodup) (members : w.ids.Nodup)

include roots members

/-- What a search of all roots finds stands where it says. -/
theorem stands_of_locate? {id : Id} {found : Located} (search : w.locate? id = some found) :
    found.member.id = id ∧ ∃ site, w.Stands found.member site ∧ site.container = found.container ∧
      site.depth = found.depth := by
  obtain ⟨r, listed, located⟩ := List.exists_of_findSome?_eq_some search
  obtain ⟨front, back, split, before⟩ := exists_split roots listed
  have search : w.locateIn? r.id id = some found := by
    rw [locateIn?, root?_eq_some_iff.2 ⟨front, back, split, rfl, before⟩, Option.bind_some, located]
  obtain ⟨named, site, stands, -, container, depth, -⟩ := stands_of_locateIn? members search
  exact ⟨named, site, stands, container, depth⟩

/-- A search of all roots finds a member where it stands. -/
theorem Stands.locate?_eq {m : Member} {site : Site} (stands : w.Stands m site) :
    w.locate? m.id = some ⟨m, site.container, site.depth⟩ := by
  have known := locate?_isSome_iff.2 (mem_ids_of_mem_members stands.mem_members)
  obtain ⟨found, search⟩ := Option.isSome_iff_exists.1 known
  obtain ⟨same, place, there, container, depth⟩ := stands_of_locate? roots members search
  obtain rfl : site = place := stands.site_eq members roots there
    (stands.container_ext members there same.symm)
  obtain ⟨n, c, d⟩ := found
  obtain rfl : m = n := eq_of_id_eq members stands.mem_members there.mem_members same.symm
  dsimp only at container depth
  rw [search, container, depth]

theorem locate?_eq_some_iff {id : Id} {found : Located} : w.locate? id = some found ↔
    found.member.id = id ∧ ∃ site, w.Stands found.member site ∧ site.container = found.container ∧
      site.depth = found.depth := by
  refine ⟨stands_of_locate? roots members, ?_⟩
  rintro ⟨rfl, site, stands, container, depth⟩
  rw [stands.locate?_eq roots members, container, depth]

/-- A search of one root finds what the search of all finds, if that is in this root. -/
theorem locateIn?_eq_filter (root id : Id) :
    w.locateIn? root id = (w.locate? id).filter (·.container.root = root) := by
  refine Option.ext fun found => ?_
  rw [Option.filter_eq_some_iff, decide_eq_true_eq]
  constructor
  · intro search
    obtain ⟨named, site, stands, inside, container, depth, -⟩ := stands_of_locateIn? members search
    refine ⟨(locate?_eq_some_iff roots members).2 ⟨named, site, stands, container, depth⟩, ?_⟩
    rw [← container, inside]
  · rintro ⟨search, rfl⟩
    obtain ⟨rfl, site, stands, container, depth⟩ := stands_of_locate? roots members search
    rw [← container, stands.locateIn?_eq members roots, container, depth]

section

variable {site : Site} {owner : Kind} {ms : Forest} (owns : w.Owns site owner ms)

include owns

/-- The members of a list stand at the depth that is looked up for its container. -/
theorem Owns.depth?_eq : w.depth? site.container = some site.depth := by
  cases id owns with
  | @root r listed =>
      obtain ⟨_, found, -⟩ := owns.exists_root? roots
      rw [depth?]
      exact congrArg (Option.map fun _ => 0) found
  | @member place _ _ m owned listed =>
      have search := Stands.locateIn?_eq members roots ⟨_, _, owned, listed⟩
      change (w.locateIn? place.container.root m.id).map _ = _
      rw [search]
      rfl

/-- The path that is looked up for a container is the one from which its list derives its own. -/
theorem Owns.path?_eq (derived : ∀ r ∈ w.roots, Forest.Consistent r.members .root) :
    w.path? site.container = some site.path ∧ Forest.Consistent ms site.path := by
  induction owns with
  | root listed =>
      obtain ⟨_, found, -⟩ := (Owns.root listed).exists_root? roots
      exact ⟨congrArg (Option.map fun _ => Path.root) found, derived _ listed⟩
  | @member place _ siblings m owned listed ih =>
      obtain ⟨path, children⟩ := Forest.consistent_iff.1 ih.2 m listed
      have search := Stands.locateIn?_eq members roots ⟨_, _, owned, listed⟩
      refine ⟨?_, children⟩
      change (w.locateIn? place.container.root m.id).map _ = _
      rw [search]
      exact congrArg some path

end

end

/-- How the searches for members and the look-ups of containers are tied to one another. -/
structure Searches (w : Workspace) : Prop where
  /-- The identifiers found are those in the forest of a root, at any depth. -/
  succeeds : ∀ id,
    (w.locate? id).isSome ↔ ∃ r ∈ w.roots, ∃ m ∈ Forest.subtrees r.members, m.id = id
  /-- A member is found where it stands. -/
  places : ∀ id found, w.locate? id = some found ↔ found.member.id = id ∧
    ∃ site, w.Stands found.member site ∧ site.container = found.container ∧
      site.depth = found.depth
  /-- A search of one root finds the same as the search of all, or nothing. -/
  within : ∀ root id, w.locateIn? root id = (w.locate? id).filter (·.container.root = root)
  /-- The list of a root or an interior member can be looked up from each member in it. -/
  lists : ∀ id found site ms, w.locate? id = some found → w.OwnsAt found.container site ms →
    found.member ∈ ms ∧ w.members? found.container = some ms ∧
      w.depth? found.container = some found.depth
  /-- If all paths derive from the names above, a member's path is that of its container and its own
  name. -/
  paths : (∀ r ∈ w.roots, Forest.Consistent r.members .root) → ∀ id found,
    w.locate? id = some found → w.path? found.container = some found.member.path.parent

theorem searches (roots : (w.roots.map Root.id).Nodup) (members : w.ids.Nodup) : w.Searches where
  succeeds id := by
    rw [locate?_isSome_iff, ids, List.mem_flatMap]
    simp only [Forest.ids, List.mem_map]
  places id found := locate?_eq_some_iff roots members
  within := locateIn?_eq_filter roots members
  lists := by
    rintro id found site ms search ⟨container, owns⟩
    obtain ⟨-, place, ⟨_, siblings, owned, listed⟩, there, depth⟩ :=
      stands_of_locate? roots members search
    obtain ⟨rfl, rfl⟩ := owns.ext roots members owned (container.trans there.symm)
    rw [← container, ← depth]
    exact ⟨listed, (members?_eq_some_iff roots members).2 ⟨site, rfl, owns⟩,
      owns.depth?_eq roots members⟩
  paths := by
    intro derived id found search
    obtain ⟨-, place, ⟨_, siblings, owned, listed⟩, there, -⟩ :=
      stands_of_locate? roots members search
    obtain ⟨path, consistent⟩ := owned.path?_eq roots members derived
    rw [← there, path, (Forest.consistent_iff.1 consistent _ listed).1, Path.parent_child]

/-- A container can be focused on if and only if it can be looked up, and what is put there is what
is looked up afterwards.  With distinct identifiers all searches and look-ups find a part of the
workspace where it stands.  A member contains the identifiers of the others in its subtree. -/
theorem lookUps_agree (w : Workspace) :
    (∀ container, (w.focus? container).map Focus.part = w.members? container ∧
      ∀ focus, w.focus? container = some focus → focus.replace focus.part = w ∧
        ∀ ms, (focus.replace ms).members? container = some ms) ∧
    ((w.roots.map Root.id).Nodup → w.ids.Nodup → w.Searches) ∧
    ∀ (m : Member) (id : Id), m.contains id = true ↔ ∃ n ∈ m.subtree, n ≠ m ∧ n.id = id :=
  ⟨fun container => ⟨w.map_part_focus? container, fun _ => replace_of_focus?⟩, searches,
    Member.contains_iff_subtree⟩

open Reconciler in
/-- The note in the folder of `noteTree` is found in the folder.  With the root listed twice,
another list can still be put in its place and looked up. -/
theorem noteTree_lookUps_agree :
    (∃ found, noteTree.locate? { bits := 3 } = some found ∧
      (∃ site, noteTree.Stands found.member site ∧ site.container = found.container) ∧
      noteTree.members? found.container = some [found.member] ∧
      noteTree.depth? found.container = some 1 ∧
      noteTree.path? found.container = some ⟨["drafts"]⟩) ∧
    ∃ focus, focus? ⟨noteTree.roots ++ noteTree.roots⟩ looseNote.container = some focus ∧
      (focus.replace []).members? looseNote.container = some [] := by
  have searches := (lookUps_agree noteTree).2.1 noteTree_valid.roots_distinct
    noteTree_valid.members_distinct
  have placed := (lookUps_agree ⟨noteTree.roots ++ noteTree.roots⟩).1 looseNote.container
  refine ⟨⟨_, rfl, ?_, ?_⟩, _, rfl, (placed.2 _ rfl).2 []⟩
  · obtain ⟨-, site, stands, container, -⟩ := (searches.places { bits := 3 } _).1 rfl
    exact ⟨site, stands, container⟩
  · have top : noteTree.Owns _ _ _ := .root (.head _)
    have folder : noteTree.Owns _ _ _ := top.member (.head _)
    obtain ⟨-, members, depth⟩ := searches.lists { bits := 3 } _ _ _ rfl ⟨rfl, folder⟩
    exact ⟨members, depth, searches.paths (List.forall_mem_singleton.2 rfl) { bits := 3 } _ rfl⟩

end Workspace

end Outline

import Outline.Proofs.Modifications
import Outline.Proofs.Places
import Outline.Proofs.Reconciliation

/-!
# Lists replaced by a patch

A patch is given a list for one container, computed at any time from any workspace.  The list that
the container then has takes each member's own fields from there, but what was below a member of the
present list stays below it (`Outline.Workspace.Replaced`).  Nothing else changes, and nothing at
all if there is no such container (`Outline.Workspace.patch_replaces`).
-/

namespace Outline

namespace Workspace

/-- A root or an interior member is the container, and owns the list at the place. -/
def OwnsAt (w : Workspace) (container : Container) (site : Site) (present : Forest) : Prop :=
  site.container = container ∧ w.Owns site .interior present

/-- A workspace once a patch with `after` has made `list` of the list `present` at a place. -/
structure Replaced (w w' : Workspace) (site : Site) (present after list : Forest) : Prop where
  /-- The members are those of `after`, in that sequence, with the fields that they have there. -/
  fields : list.map Member.shallow = after.map Member.shallow
  /-- Members that were there keep all that was below them, under their new paths. -/
  kept : ∀ m ∈ list, ∀ old ∈ present, old.id = m.id →
    Forest.Repathed m.path old.children m.children
  /-- Other members come as they are given. -/
  given : ∀ m ∈ list, m.id ∉ present.map Member.id → m ∈ after
  /-- Members that are not mentioned are gone, with all below them. -/
  gone : ∀ old ∈ present, old.id ∉ after.map Member.id → ∀ id ∈ old.ids, id ∉ w'.ids
  /-- The workspace is the same around the list. -/
  around : w' = w.modify site.container fun _ => list
  found : w'.members? site.container = some list
  /-- All lists that are not below the container stay where they are and as they are. -/
  elsewhere : ∃ frame : List Level,
    w.levels.Perm (Forest.levels present site .interior ++ frame) ∧
      w'.levels.Perm (Forest.levels list site .interior ++ frame)
  roots : w'.roots.map Root.shallow = w.roots.map Root.shallow

end Workspace

/-- With distinct identifiers, members of a list have nothing below them in common. -/
theorem Forest.eq_of_mem_ids {ms : Forest} (distinct : (ids ms).Nodup) {m n : Member} (inM : m ∈ ms)
    (inN : n ∈ ms) {id : Id} (belowM : id ∈ m.ids) (belowN : id ∈ n.ids) : m = n := by
  obtain ⟨front, back, rfl⟩ := List.append_of_mem inM
  rw [ids_append, ids_cons_eq, (List.perm_append_comm_assoc ..).nodup_iff, ← ids_append] at distinct
  have apart := List.disjoint_of_nodup_append distinct
  have middle : (front ++ m :: back).Perm (m :: (front ++ back)) := List.perm_middle
  rcases List.mem_cons.1 (middle.mem_iff.1 inN) with rfl | other
  · rfl
  · exact absurd (ids_subset_of_mem (mem_subtrees_of_mem other) belowN) (apart belowM)

namespace Workspace

variable {w : Workspace} {container : Container} {present after : Forest} {site : Site}
  {frame : List Level} {put : Forest → Workspace}

theorem Window.replaced (window : w.Window container present site frame put)
    (roots : (w.roots.map Root.id).Nodup) (members : w.ids.Nodup)
    (listed : (after.map Member.id).Nodup)
    (new : ∀ m ∈ after, m.id ∉ present.map Member.id → ∀ id ∈ m.ids, id ∉ w.ids) :
    w.Replaced (put (Forest.patched present after)) site present after
      (Forest.patched present after) := by
  have apart := window.ids_perm.nodup_iff.1 members
  have distinct := Forest.nodup_map_id apart.of_append_left
  have settled := Forest.patched_eq_map distinct listed
  -- What a member of the new list comes to depends on whether it was there.
  have cases : ∀ m ∈ Forest.patched present after, ∃ x ∈ after, m.shallow = x.shallow ∧
      ((∃ old ∈ present, old.id = m.id ∧ m.children = Forest.rebased old.children m.path) ∨
        m = x ∧ m.id ∉ present.map Member.id) := by
    intro m member
    rw [settled] at member
    obtain ⟨x, inside, rfl⟩ := List.mem_map.1 member
    refine ⟨x, inside, ?_⟩
    by_cases known : x.id ∈ present.map Member.id
    · obtain ⟨old, here, same⟩ := List.mem_map.1 known
      rw [Member.settled_of_mem distinct here same]
      exact ⟨rfl, .inl ⟨old, here, same, rfl⟩⟩
    · rw [Member.settled_of_not_mem known]
      exact ⟨rfl, .inr ⟨rfl, known⟩⟩
  exact {
    fields := by
      rw [settled, List.map_map]
      refine List.map_congr_left fun x _ => ?_
      change (x.settled present).shallow = x.shallow
      unfold Member.settled
      split <;> rfl
    kept := by
      intro m member old here same
      obtain ⟨x, -, -, ⟨old', here', same', children⟩ | ⟨-, unknown⟩⟩ := cases m member
      · obtain rfl : old = old' :=
          List.inj_on_of_nodup_map distinct here here' (same.trans same'.symm)
        exact Forest.repathed_iff.2 children
      · exact absurd (List.mem_map.2 ⟨old, here, same⟩) unknown
    given := by
      intro m member unknown
      obtain ⟨x, inside, -, ⟨old, here, same, -⟩ | ⟨rfl, -⟩⟩ := cases m member
      · exact absurd (List.mem_map.2 ⟨old, here, same⟩) unknown
      · exact inside
    gone := by
      intro old here absent id below inside
      have known : id ∈ Forest.ids present :=
        Forest.ids_subset_of_mem (Forest.mem_subtrees_of_mem here) below
      rcases List.mem_append.1 ((window.put_ids_perm _).mem_iff.1 inside) with own | outside
      · rw [Forest.ids_eq_flatMap] at own
        obtain ⟨m, member, own⟩ := List.mem_flatMap.1 own
        obtain ⟨x, mentioned, fields, ⟨old', here', same, children⟩ | ⟨rfl, unknown⟩⟩ :=
          cases m member
        · -- The member keeps what was below it, and that is apart from what was below the other.
          have ids : m.ids = old'.ids := by
            rw [Member.ids_eq, Member.ids_eq, children, Forest.ids_rebased, same]
          obtain rfl := Forest.eq_of_mem_ids apart.of_append_left here here' below (ids ▸ own)
          exact absent (List.mem_map.2
            ⟨x, mentioned, (Member.id_eq_of_shallow fields).symm.trans same.symm⟩)
        · exact new m mentioned unknown id own (window.ids_perm.mem_iff.2
            (List.mem_append_left _ known))
      · exact List.disjoint_of_nodup_append apart known outside
    around := by
      rw [window.container_eq]
      exact Except.ok.inj ((window.patch after).symm.trans
        (patch_eq_modify roots (hasOnce_of_nodup members container) window.members rfl))
    found := by
      rw [window.container_eq]
      exact window.put_members _
    elsewhere := ⟨frame, window.levels, window.put_levels _⟩
    roots := window.put_roots _ }

/-- A patch of a workspace with distinct identifiers fails just if no root and no interior member is
the container, and then nothing changes.  Otherwise it replaces the list of the container, and
nothing else. -/
theorem patch_replaces (roots : (w.roots.map Root.id).Nodup) (members : w.ids.Nodup)
    (listed : (after.map Member.id).Nodup)
    (new : ∀ site present, w.OwnsAt container site present → ∀ m ∈ after,
      m.id ∉ present.map Member.id → ∀ id ∈ m.ids, id ∉ w.ids) :
    (Cache.ofWorkspace.patch container after w = (.error (.noContainer container), w) ↔
      ¬ ∃ site present, w.OwnsAt container site present) ∧
    ∀ site present, w.OwnsAt container site present → ∃ w' list,
      Cache.ofWorkspace.patch container after w = (.ok (), w') ∧
        w.Replaced w' site present after list := by
  have replaces : ∀ site present, w.OwnsAt container site present → ∃ w' list,
      Cache.ofWorkspace.patch container after w = (.ok (), w') ∧
        w.Replaced w' site present after list := by
    rintro site present ⟨rfl, owns⟩
    obtain ⟨frame, put, window⟩ := owns.exists_window roots members
    refine ⟨_, _, ?_, window.replaced roots members listed (new site present ⟨rfl, owns⟩)⟩
    simp only [Cache.ofWorkspace, window.patch]
  refine ⟨⟨?_, fun absent => ?_⟩, replaces⟩
  · rintro failed ⟨site, present, owns⟩
    obtain ⟨w', list, patched, -⟩ := replaces site present owns
    cases failed.symm.trans patched
  · have none : w.members? container = none := by
      by_contra found
      obtain ⟨present, found⟩ := Option.ne_none_iff_exists'.1 found
      obtain ⟨site, owns⟩ := (members?_eq_some_iff roots members).1 found
      exact absent ⟨site, present, owns⟩
    simp only [Cache.ofWorkspace, patch_eq_error none]

open Reconciler in
/-- The list of the root of `noteTree` is replaced: the folder has another name and holds its note
still, the other note is gone, and a folder has come with a note in it.  The note that is gone was
no container. -/
theorem noteTree_patch_replaces :
    let moved : Member := ⟨.ofRandom 7, "ideas", 1, .interior, Path.root.child "ideas",
      [.fresh (.ofRandom 8) "first" 1 .leaf (Path.root.child "ideas")]⟩
    let after : Forest :=
      [moved, ⟨{ bits := 2 }, "plans", 2, .interior, Path.root.child "plans", []⟩]
    (∃ w' list, Cache.ofWorkspace.patch looseNote.container after noteTree = (.ok (), w') ∧
      (∃ site present, noteTree.Replaced w' site present after list) ∧
      w'.members.map Member.path = [⟨["ideas"]⟩, ⟨["ideas", "first"]⟩, ⟨["plans"]⟩,
        ⟨["plans", "plan"]⟩]) ∧
    ¬ ∃ site present,
      noteTree.OwnsAt (.ofNode looseNote.container.root looseNote.member) site present := by
  intro moved after
  have roots := noteTree_valid.roots_distinct
  have members := noteTree_valid.members_distinct
  constructor
  · have new : ∀ site present, noteTree.OwnsAt looseNote.container site present → ∀ m ∈ after,
        m.id ∉ present.map Member.id → ∀ id ∈ m.ids, id ∉ noteTree.ids := by
      intro site present owns
      have found := (members?_eq_some_iff roots members).2 ⟨site, owns⟩
      obtain rfl : _ = present := Option.some.inj ((rfl : noteTree.members? _ = _).symm.trans found)
      decide
    obtain ⟨w', list, patched, replaced⟩ :=
      (patch_replaces roots members (by decide) new).2 _ _ ⟨rfl, .root (.head _)⟩
    refine ⟨w', list, patched, ⟨_, _, replaced⟩, ?_⟩
    obtain rfl : _ = w' := congrArg Prod.snd patched
    decide
  · exact (@patch_replaces noteTree _ [] roots members List.nodup_nil
      fun _ _ _ _ listed => absurd listed List.not_mem_nil).1.1 rfl

end Workspace

end Outline

import Mathlib.Data.List.Basic
import Outline.Proofs.Operations
import Outline.Proofs.Searches

/-!
# What the checks of edits allow

A member may be added, or may have another name, if the name is not blank and the workspace is valid
after it.  The checks look at the name, the siblings and the shape of the root alone.  They refuse
nothing that would keep a workspace valid, and pass nothing that would not
(`Outline.Workspace.Valid.checks_exact`).
-/

namespace Outline

namespace Workspace

/-- What has been computed can be put in place, and the workspace is valid then. -/
def ValidAfter (w : Workspace) (computed : Except Absence Rearrangement) : Prop :=
  ∃ r w', computed = .ok r ∧ r.carryOut w = .ok w' ∧ w'.Valid

section

variable {w : Workspace} {container : Container} {present : Forest} {site : Site}
  {frame : List Level} {put : Forest → Workspace}

/-- A list that makes for a valid workspace keeps the rules at its place. -/
theorem Window.sound_put (window : w.Window container present site frame put) {ms : Forest}
    (valid : (put ms).Valid) : (site.level ms).Sound :=
  valid.sound ((window.put_levels ms).mem_iff.2 (.head _))

/-- A member put into a list fits there and has another name than its siblings, if the workspace is
valid then. -/
theorem Window.fits_of_insertAt (window : w.Window container present site frame put) {m : Member}
    {index : Nat} (after : (put (Ordered.insertAt present m index)).Valid) :
    site.shape.accepts site.depth m.kind = true ∧
      ∀ s ∈ present, Text.lower s.name ≠ Text.lower m.name := by
  obtain ⟨-, names, -, kinds⟩ := Forest.sound_iff.1 (window.sound_put after)
  obtain ⟨n, listed⟩ := Ordered.exists_mem_insertAt present m index
  refine ⟨kinds (Ordered.withOrder m n) listed, fun s inside same => ?_⟩
  have perm := (Ordered.perm_insertion present m index).map fun x => Text.lower x.name
  rw [Ordered.insertAt_eq, Ordered.map_renumber_eq (f := fun x : Member => Text.lower x.name)
    fun _ _ => rfl, perm.nodup_iff, List.map_append] at names
  exact (List.nodup_append.1 names).2.2 _ (List.mem_map_of_mem inside) _ (.head _) same

/-- A new name is another than those of the siblings, if the workspace is valid then. -/
theorem Window.apart_of_renamed (window : w.Window container present site frame put) {m : Member}
    (member : m ∈ present) {name : String}
    (after : (put (present.renamed m.id name site.path)).Valid) :
    ∀ s ∈ present, s.id ≠ m.id → Text.lower s.name ≠ Text.lower name := by
  obtain ⟨-, names, -, -⟩ := Forest.sound_iff.1 (window.sound_put after)
  rw [Forest.renamed, List.map_map] at names
  intro s inside other same
  have clash := List.inj_on_of_nodup_map names inside member
  rw [Function.comp_apply, Function.comp_apply, if_neg other, if_pos rfl, Member.name_rebased]
    at clash
  exact other (congrArg Member.id (clash same))

/-- A new member is put into its list as computed. -/
theorem Valid.carryOut_add (valid : w.Valid) (window : w.Window container present site frame put)
    {m : Member} (fresh : m.id ∉ w.ids) (index : Nat) :
    Rearrangement.carryOut { changes := [{
      container, before := present, after := Ordered.insertAt present m index }] } w =
        .ok (put (Ordered.insertAt present m index)) := by
  have distinct := Forest.nodup_map_id (valid.nodup_present window)
  refine carryOut_single ?_
  rw [window.patch, Forest.patched_insertAt distinct
    (fun x member => (valid.consistent_children window member).2) rfl (window.not_mem_map_id fresh)]

/-- A member has another name in its list as computed. -/
theorem Valid.carryOut_renamed (valid : w.Valid)
    (window : w.Window container present site frame put) {id : Id} {name : String} :
    Rearrangement.carryOut { changes := [{
      container, before := present, after := present.renamed id name site.path }] } w =
        .ok (put (present.renamed id name site.path)) :=
  carryOut_single (by rw [window.patch, valid.patched_renamed window])

end

namespace Valid

variable {w : Workspace} (valid : w.Valid)

include valid

/-- The check before a member is added is passed if and only if the name is not blank, the container
is there, and the workspace is valid with the member. -/
theorem checkInsert_iff {container : Container} {name : String} {kind : Kind} {fresh : Id}
    (minted : fresh ∉ w.ids) : w.checkInsert container name kind = .ok () ↔
      Text.isBlank name = false ∧ (∃ site ms, w.OwnsAt container site ms) ∧
        w.ValidAfter (w.add container name kind fresh) := by
  constructor
  · intro passed
    obtain ⟨named, _, _, siblings, -, -, -, members, -⟩ := checkInsert_eq_ok_iff.1 passed
    obtain ⟨site, owned⟩ :=
      (members?_eq_some_iff valid.roots_distinct valid.members_distinct).1 members
    obtain ⟨r, w', computed, outcome⟩ := valid.exists_outcome_of_add passed minted
    exact ⟨named, ⟨site, siblings, owned⟩, r, w', computed, outcome.carried, outcome.valid⟩
  · rintro ⟨named, ⟨site, siblings, rfl, owns⟩, r, w', computed, carried, after⟩
    obtain ⟨frame, put, window⟩ := owns.exists_window valid.roots_distinct valid.members_distinct
    obtain rfl := Except.ok.inj ((valid.add_eq_ok window name kind fresh).symm.trans computed)
    have placed := valid.carryOut_add window (m := .fresh fresh name 0 kind site.path) minted
      siblings.length
    obtain rfl := Except.ok.inj (placed.symm.trans carried)
    obtain ⟨accepted, apart⟩ := window.fits_of_insertAt after
    exact checkInsert_eq_ok_iff.2 ⟨named, site.shape, site.depth, siblings, window.shape,
      window.depth, accepted, window.members, apart⟩

/-- The check before a member is renamed is passed if and only if the name is not blank, the member
is there, and the workspace is valid with the name. -/
theorem checkRename_iff {id : Id} {name : String} :
    (∃ container, w.checkRename id name = .ok container) ↔
      Text.isBlank name = false ∧ id ∈ w.ids ∧ w.ValidAfter (w.rename id name) := by
  constructor
  · rintro ⟨container, passed⟩
    obtain ⟨named, found, -, located, -⟩ := checkRename_eq_ok_iff.1 passed
    obtain ⟨r, w', computed, outcome⟩ := valid.exists_outcome_of_rename passed
    have known := locate?_isSome_iff.1 (Option.isSome_iff_exists.2 ⟨found, located⟩)
    exact ⟨named, known, r, w', computed, outcome.carried, outcome.valid⟩
  · rintro ⟨named, known, r, w', computed, carried, after⟩
    obtain ⟨found, located⟩ := Option.isSome_iff_exists.1 (locate?_isSome_iff.2 known)
    obtain ⟨present, site, frame, put, window, member, rfl⟩ :=
      valid.exists_window_of_locate? located
    obtain rfl := Except.ok.inj ((valid.rename_eq_ok window located rfl name).symm.trans computed)
    obtain rfl := Except.ok.inj ((valid.carryOut_renamed window).symm.trans carried)
    exact ⟨found.container, checkRename_eq_ok_iff.2 ⟨named, found, present, located, rfl,
      window.members, window.apart_of_renamed member after⟩⟩

/-- A renaming that passes its check is given the container in which the member stands. -/
theorem stands_of_checkRename {id : Id} {name : String} {container : Container}
    (passed : w.checkRename id name = .ok container) :
    ∃ m site, m.id = id ∧ w.Stands m site ∧ site.container = container := by
  obtain ⟨-, found, -, located, rfl, -⟩ := checkRename_eq_ok_iff.1 passed
  obtain ⟨named, site, stands, place, -⟩ :=
    stands_of_locate? valid.roots_distinct valid.members_distinct located
  exact ⟨found.member, site, named, stands, place⟩

/-- A member may be added, or renamed, if and only if the name has a character that is not white
space, the container or the member is there, and the workspace is valid afterwards. -/
theorem checks_exact (name : String) :
    (∀ container kind fresh, fresh ∉ w.ids → (w.checkInsert container name kind = .ok () ↔
      (∃ c ∈ name.toList, Text.whiteSpace.contains c = false) ∧
        (∃ site ms, w.OwnsAt container site ms) ∧
        w.ValidAfter (w.add container name kind fresh))) ∧
    ∀ id, ((∃ container, w.checkRename id name = .ok container) ↔
      (∃ c ∈ name.toList, Text.whiteSpace.contains c = false) ∧ id ∈ w.ids ∧
        w.ValidAfter (w.rename id name)) ∧
      ∀ container, w.checkRename id name = .ok container →
        ∃ m site, m.id = id ∧ w.Stands m site ∧ site.container = container := by
  rw [← Text.isBlank_eq_false_iff]
  exact ⟨fun _ _ _ minted => valid.checkInsert_iff minted,
    fun _ => ⟨valid.checkRename_iff, fun _ => valid.stands_of_checkRename⟩⟩

end Valid

open Reconciler in
/-- The note outside the folder of `noteTree` may change the case of its own name, and a note of the
name of the one in the folder may not be put beside it. -/
theorem noteTree_checks_exact :
    noteTree.ValidAfter (noteTree.rename { bits := 4 } "TODO") ∧
      ¬ noteTree.ValidAfter (noteTree.add (.ofNode looseNote.container.root { bits := 2 }) "PLAN"
        .leaf (.ofRandom 5)) := by
  constructor
  · have exact := (noteTree_valid.checks_exact "TODO").2 { bits := 4 }
    exact (exact.1.1 ⟨looseNote.container, by decide⟩).2.2
  · intro after
    have top : noteTree.Owns _ _ _ := .root (.head _)
    have folder : noteTree.Owns _ _ _ := top.member (.head _)
    have exact := (noteTree_valid.checks_exact "PLAN").1
      (.ofNode looseNote.container.root { bits := 2 }) .leaf (.ofRandom 5) (by decide)
    cases exact.2 ⟨⟨'P', .head _, by decide⟩, ⟨_, _, rfl, folder⟩, after⟩

end Workspace

end Outline

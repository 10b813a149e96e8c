import Outline.Proofs.Checks
import Outline.Proofs.Commutation
import Outline.Proofs.Deletions

/-!
# Oversized members

A member that has too many members one below the other cannot be deleted at once.  No other edit and
no drop runs into that (`Outline.Workspace.Valid.shallow_of_compute`,
`Outline.Workspace.Valid.exists_outcome_of_classified`).  The rules do not keep a member from
becoming that high: wherever there is a folder without members, another one can be added to it
(`Outline.Workspace.Valid.exists_deeper`).
-/

namespace Outline

namespace Rearrangement

variable {r : Rearrangement} {w : Workspace}

/-- Nothing that is deleted is too high where nothing is deleted. -/
theorem shallow_of_deleted (none : ∀ change ∈ r.changes, change.deleted = []) : r.Shallow w := by
  intro batch inside
  obtain ⟨change, listed, rfl⟩ := List.mem_map.1 (List.mem_of_mem_filter inside)
  exact .inl (none change listed)

end Rearrangement

/-- The edit deletes a member that has too many members one below the other. -/
def Edit.Oversized (edit : Edit) (w : Workspace) : Prop :=
  ∃ member found, edit = .delete member ∧ w.locate? member = some found ∧
    Store.cascadeDepth < found.member.height

namespace Workspace

variable {w : Workspace}

/-- No list is longer than there are members. -/
theorem Owns.length_le {site : Site} {owner : Kind} {ms : Forest} (owns : w.Owns site owner ms) :
    ms.length ≤ w.ids.length := by
  obtain ⟨front, back, split⟩ := List.append_of_mem owns.level_mem
  have count := w.ids_perm_levels.length_eq
  rw [split, List.flatMap_append, List.flatMap_cons, List.length_append, List.length_append,
    Level.ids, List.length_map, List.length_map] at count
  omega

/-- Where there are few roots and few members, all lists are short enough. -/
theorem fits_of_length (roots : w.roots.length < orderLimit - 1)
    (members : w.ids.length < orderLimit - 1) : w.Fits where
  roots := roots
  tops root listed := Nat.lt_of_le_of_lt (Owns.root listed).length_le members
  children m member := by
    obtain ⟨site, owner, ms, owns, listed⟩ := exists_stands_of_mem member
    exact Nat.lt_of_le_of_lt (owns.member listed).length_le members

variable (valid : w.Valid)

include valid

/-- A drop deletes nothing. -/
theorem Valid.exists_outcome_of_classified {payload : Payload} {location : Location} {move : Move}
    (classified : w.classify payload location = .ok move) : ∃ r w',
      w.rearrange move = .ok r ∧ w.Outcome r w' ∧ r.Shallow w := by
  obtain ⟨r, w', computed, outcome, ids, -⟩ :=
    valid.exists_outcome_of_admits (admits_of_classify classified)
  refine ⟨r, w', computed, outcome, fun batch inside => .inl ?_⟩
  exact ((outcome.difference valid).updates_only ids batch (List.mem_of_mem_filter inside)).2

/-- A member is deleted in one batch, which has no other deletions than the member and those below
it. -/
theorem Valid.exists_batch_of_delete {member : Id} {found : Located}
    (located : w.locate? member = some found) (fresh : Id) : ∃ r batch,
      Edit.compute (.delete member) fresh w = .ok r ∧ r.batches = [batch] ∧
        r.rootBatch? = none ∧ batch.container = found.container ∧
        batch.deletes = found.member.ids := by
  obtain ⟨present, site, frame, put, window, listed, rfl⟩ :=
    valid.exists_window_of_locate? located
  have deleted := valid.delete_eq_ok window listed located rfl
  let change : Change := {
    container := found.container, before := present
    after := Ordered.renumber (present.without found.member), deleted := found.member.ids }
  refine ⟨{ changes := [change] }, change.plan, by rw [Edit.compute, deleted]; rfl, ?_, rfl, rfl,
    rfl⟩
  refine List.filter_eq_self.2 (List.forall_mem_singleton.2 ?_)
  simp [Batch.isEmpty, Change.plan, change, Member.ids_eq]

/-- What is computed for an edit deletes nothing that is too high, unless the edit is to. -/
theorem Valid.shallow_of_compute {edit : Edit} {fresh : Id} {r : Rearrangement}
    (computed : edit.compute fresh w = .ok r) (low : ¬ edit.Oversized w) : r.Shallow w := by
  cases edit with
  | add container name kind =>
      have passed : w.checkInsert container name kind = .ok () := allowed_of_compute computed
      rw [Edit.compute, passed] at computed
      obtain ⟨siblings, -, computed⟩ := exists_of_bind_eq_ok (ok_of_mapError computed)
      obtain ⟨path, -, done⟩ := exists_of_bind_eq_ok computed
      obtain rfl := Except.ok.inj done
      exact Rearrangement.shallow_of_deleted (List.forall_mem_singleton.2 rfl)
  | rename member name =>
      obtain ⟨container, passed⟩ : ∃ container, w.checkRename member name = .ok container :=
        allowed_of_compute computed
      rw [Edit.compute, passed] at computed
      obtain ⟨-, found, -, located, -⟩ := checkRename_eq_ok_iff.1 passed
      obtain ⟨present, site, frame, put, window, -, -⟩ := valid.exists_window_of_locate? located
      have same := (valid.rename_eq_ok window located rfl name).symm.trans (ok_of_mapError computed)
      obtain rfl := Except.ok.inj same
      exact Rearrangement.shallow_of_deleted (List.forall_mem_singleton.2 rfl)
  | delete member =>
      have known : (w.locate? member).isSome := allowed_of_compute computed
      obtain ⟨found, located⟩ := Option.isSome_iff_exists.1 known
      obtain ⟨r', batch, same, batches, -, -, deletes⟩ :=
        valid.exists_batch_of_delete located fresh
      obtain rfl := Except.ok.inj (computed.symm.trans same)
      obtain ⟨-, site, stands, -, -⟩ :=
        stands_of_locate? valid.roots_distinct valid.members_distinct located
      intro other inside
      rw [batches, List.mem_singleton] at inside
      refine .inr ⟨found.member, stands.mem_members, inside ▸ deletes, ?_⟩
      exact Nat.le_of_not_lt fun high => low ⟨member, found, rfl, located, high⟩

omit valid in
/-- What is put in the place of a list is found there. -/
theorem Window.put_owns {container : Container} {present ms : Forest} {site : Site}
    {frame : List Level} {put : Forest → Workspace}
    (window : w.Window container present site frame put)
    (roots : ((put ms).roots.map Root.id).Nodup) (members : (put ms).ids.Nodup) :
    (put ms).Owns site .interior ms := by
  have level : ⟨site, .interior, ms.map Member.shallow⟩ ∈ (put ms).levels :=
    (window.put_levels ms).mem_iff.2 (List.mem_append_left _ (.head _))
  obtain ⟨there, named, owned⟩ := (members?_eq_some_iff roots members).1 (window.put_members ms)
  obtain ⟨ns, owns, -⟩ := exists_owns_of_level level
  obtain ⟨rfl, -⟩ := owned.ext roots members owns (named.trans window.container_eq.symm)
  exact owned

/-- A folder can be added wherever there is none yet, and has no members itself. -/
theorem Valid.exists_deeper {site : Site} (vacant : w.Owns site .interior [])
    (tree : site.shape = .tree) {fresh : Id} (new : fresh ∉ w.ids) : ∃ r w' inner,
      Edit.compute (.add site.container "folder" .interior) fresh w = .ok r ∧ w.Outcome r w' ∧
        w'.Owns inner .interior [] ∧ inner.depth = site.depth + 1 ∧ inner.shape = .tree ∧
        w'.ids.Perm (fresh :: w.ids) := by
  obtain ⟨frame, put, window⟩ := vacant.exists_window valid.roots_distinct valid.members_distinct
  have accepted : site.shape.accepts site.depth .interior = true := by
    rw [tree]
    rfl
  have passed : w.checkInsert site.container "folder" .interior = .ok () :=
    checkInsert_eq_ok_iff.2 ⟨by decide, site.shape, site.depth, [], window.shape, window.depth,
      accepted, window.members, List.forall_mem_nil _⟩
  obtain ⟨r, w', added, outcome⟩ := valid.exists_outcome_of_add passed new
  obtain rfl := Except.ok.inj
    ((valid.add_eq_ok window "folder" .interior fresh).symm.trans added)
  have carried := valid.carryOut_add window (m := .fresh fresh "folder" 0 .interior site.path) new 0
  obtain rfl := Except.ok.inj (outcome.carried.symm.trans carried)
  have owned := window.put_owns outcome.valid.roots_distinct outcome.valid.members_distinct
  have inner := owned.member (.head _)
  have before := window.ids_perm
  rw [Forest.ids_nil, List.nil_append] at before
  refine ⟨_, _, _, by rw [Edit.compute, passed, added]; rfl, outcome, inner, rfl, tree, ?_⟩
  exact (window.put_ids_perm _).trans (.cons _ before.symm)

end Workspace

end Outline

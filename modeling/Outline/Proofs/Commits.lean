import Outline.Proofs.Heights
import Outline.Proofs.Reconciliation

/-!
# Committing outcomes to the tables

Tables that keep a workspace accept all that is planned for a rearrangement of it, in any sequence,
and keep the outcome afterwards (`Outline.Store.Database.Keeps.commit`).  What the cache is patched
with and what the tables make of the planned commands are thus the same.  The exception are members
that are too high to be deleted at once: they are refused, and tables and cache stay as they are
(`Outline.Store.Database.Keeps.commit_of_high`).
-/

namespace Outline

namespace Workspace

variable {w w' : Workspace} {batches : List Batch}

/-- The updates turn every row that stays into what it becomes. -/
theorem Difference.receiveAll_eq (difference : w.Difference w' batches) (valid : w.Valid)
    (valid' : w'.Valid) {old new : Row} (inside : old ∈ w.rows) (listed : new ∈ w'.rows)
    (same : old.id = new.id) : old.receiveAll (batches.flatMap Batch.updates) = new := by
  have kind := difference.kinds old inside new listed same
  by_cases differs : old.Differs new
  · have update := (difference.updates _).2
      ⟨old, inside, new, listed, same, differs, old.updateTo_turns new⟩
    have distinct := (List.nodup_append.1 (List.nodup_append.1 difference.once).1).2.1
    rw [Row.receiveAll_eq_updated distinct update same.symm, Row.updated_updateTo same kind]
  · rw [← Row.eq_of_not_differs same kind differs]
    apply Row.receiveAll_eq_self
    intro updated
    obtain ⟨update, here, id⟩ := List.mem_map.1 updated
    obtain ⟨before, inside', after, listed', same', differs', turns⟩ :=
      (difference.updates update).1 here
    rw [turns.id] at id
    apply differs
    rwa [valid.row_ext inside inside' (id.symm.trans same'.symm),
      valid'.row_ext listed listed' (same.symm.trans id.symm)]

variable {table : List Row}

/-- The rows that are not deleted in the end are rows of the outcome. -/
theorem Difference.mem_rows (difference : w.Difference w' batches) (valid : w.Valid)
    (valid' : w'.Valid) (same : table.Perm w.rows) {row : Row}
    (inside : row ∈ Store.Database.accepted table (batches.flatMap Batch.creates)
      (batches.flatMap Batch.updates))
    (stays : row.id ∉ batches.flatMap Batch.deletes) : row ∈ w'.rows := by
  rcases List.mem_append.1 inside with known | created
  · obtain ⟨old, here, rfl⟩ := List.mem_map.1 known
    have old_mem := same.mem_iff.1 here
    rw [Row.id_receiveAll] at stays
    have left : old.id ∈ w'.ids := by
      by_contra gone
      apply stays (difference.deletes.mem_iff.2 (List.mem_filter.2 ⟨_, decide_eq_true gone⟩))
      exact id_mem_of_mem_rows old_mem
    obtain ⟨new, listed, id⟩ := exists_row_of_mem_ids left
    rwa [difference.receiveAll_eq valid valid' old_mem listed id.symm]
  · exact (List.mem_filter.1 (difference.creates.mem_iff.1 created)).1

/-- The rows that are left after all commands are those of the outcome. -/
theorem Difference.accepted_perm (difference : w.Difference w' batches) (valid : w.Valid)
    (valid' : w'.Valid) (same : table.Perm w.rows) :
    ((Store.Database.accepted table (batches.flatMap Batch.creates)
      (batches.flatMap Batch.updates)).filter
        (·.id ∉ batches.flatMap Batch.deletes)).Perm w'.rows := by
  have ids : (table.map Row.id).Perm w.ids := by
    rw [← w.map_id_rows]
    exact same.map _
  have distinct : ((Store.Database.accepted table (batches.flatMap Batch.creates)
      (batches.flatMap Batch.updates)).map Row.id).Nodup := by
    rw [Store.Database.map_id_accepted]
    refine List.nodup_append.2 ⟨ids.nodup_iff.2 valid.members_distinct, ?_, ?_⟩
    · exact (List.nodup_append.1 (List.nodup_append.1 difference.once).1).1
    · rintro id known _ new rfl
      obtain ⟨row, created, rfl⟩ := List.mem_map.1 new
      have stranger := (List.mem_filter.1 (difference.creates.mem_iff.1 created)).2
      exact of_decide_eq_true stranger (ids.mem_iff.1 known)
  apply (List.perm_ext_iff_of_nodup (distinct.of_map.filter _) valid'.nodup_rows).2
  intro row
  constructor
  · intro inside
    obtain ⟨inside, stays⟩ := List.mem_filter.1 inside
    exact difference.mem_rows valid valid' same inside (of_decide_eq_true stays)
  · intro listed
    have here : row.id ∈ w'.ids := id_mem_of_mem_rows listed
    refine List.mem_filter.2 ⟨?_, decide_eq_true fun deleted => ?_⟩
    · by_cases known : row.id ∈ w.ids
      · obtain ⟨old, inside, id⟩ := exists_row_of_mem_ids known
        rw [← difference.receiveAll_eq valid valid' inside listed id]
        exact List.mem_append_left _ (List.mem_map_of_mem (same.mem_iff.2 inside))
      · refine List.mem_append_right _ (difference.creates.mem_iff.2 ?_)
        exact List.mem_filter.2 ⟨listed, decide_eq_true known⟩
    · have gone := (List.mem_filter.1 (difference.deletes.mem_iff.1 deleted)).2
      exact of_decide_eq_true gone here

/-- A parent of a row is a member of the workspace. -/
theorem mem_ids_of_parent {row : Row} (inside : row ∈ w.rows) {node : Id}
    (below : row.parent.node = some node) : node ∈ w.ids := by
  obtain ⟨root, listed, inside⟩ := List.mem_flatMap.1 inside
  rcases Forest.parent_of_mem_rows inside with own | ⟨parent, member, same⟩
  · rw [own] at below
    cases below
  · rw [same] at below
    obtain rfl := Option.some.inj below
    exact List.mem_flatMap.2 ⟨root, listed, member⟩

variable {r : Rearrangement} {db : Store.Database}

/-- What a changed row refers to is stored before anything is changed. -/
theorem Outcome.refers (outcome : w.Outcome r w') (same : table.Perm w.rows)
    (roots : ∀ root ∈ w.roots, root.id.text ∈ db.roots.map Store.RootRow.id) {row : Row}
    (listed : row ∈ w'.rows) (changed : row ∉ w.rows) :
    db.Refers (table.map Row.id) row.parent := by
  obtain ⟨novel, stale, frame, accounts⟩ := outcome.accounts
  have new : row ∈ novel := by
    rcases List.mem_append.1 (accounts.after.mem_iff.1 listed) with new | stays
    · exact new
    · exact absurd (accounts.frame row stays) changed
  obtain ⟨found, known⟩ := accounts.parents row new
  obtain ⟨root, here⟩ := Option.isSome_iff_exists.1 found
  have id : root.id = row.parent.root := by simpa using List.find?_some here
  refine ⟨id ▸ roots root (List.mem_of_find?_eq_some here), fun node below => ?_⟩
  rw [(same.map Row.id).mem_iff, w.map_id_rows]
  exact known node below

/-- The tables accept all that is planned. -/
theorem Outcome.accepts (outcome : w.Outcome r w') (difference : w.Difference w' batches)
    (valid : w.Valid) (same : table.Perm w.rows)
    (roots : ∀ root ∈ w.roots, root.id.text ∈ db.roots.map Store.RootRow.id) :
    db.Accepts table (batches.flatMap Batch.creates) (batches.flatMap Batch.updates) := by
  have ids : ∀ id, id ∈ table.map Row.id ↔ id ∈ w.ids := by
    intro id
    rw [(same.map Row.id).mem_iff, w.map_id_rows]
  constructor
  · exact (List.nodup_append.1 (List.nodup_append.1 difference.once).1).1
  · intro row created
    rw [ids]
    exact of_decide_eq_true (List.mem_filter.1 (difference.creates.mem_iff.1 created)).2
  · intro update inside
    obtain ⟨old, here, new, -, id, -, turns⟩ := (difference.updates update).1 inside
    rw [ids, turns.id, ← id]
    exact id_mem_of_mem_rows here
  · intro row created
    obtain ⟨listed, stranger⟩ := List.mem_filter.1 (difference.creates.mem_iff.1 created)
    apply outcome.refers same roots listed
    exact fun known => of_decide_eq_true stranger (id_mem_of_mem_rows known)
  · intro update inside parent moves
    obtain ⟨old, here, new, listed, id, differs, turns⟩ := (difference.updates update).1 inside
    obtain ⟨-, rfl⟩ := (turns.parent parent).1 moves
    refine outcome.refers same roots listed fun known => new.not_differs_self ?_
    rwa [valid.row_ext here known id] at differs

/-- Where the only deletions are, nothing is left below what is deleted. -/
theorem Difference.closed (difference : w.Difference w' batches) (valid : w.Valid)
    (valid' : w'.Valid) (same : table.Perm w.rows) : ∀ row ∈ Store.Database.accepted table
      (batches.flatMap Batch.creates) (batches.flatMap Batch.updates), ∀ node,
      row.parent.node = some node → node ∈ batches.flatMap Batch.deletes →
        row.id ∈ batches.flatMap Batch.deletes := by
  intro row inside node below gone
  by_contra stays
  have listed := difference.mem_rows valid valid' same inside stays
  have left := (List.mem_filter.1 (difference.deletes.mem_iff.1 gone)).2
  exact of_decide_eq_true left (mem_ids_of_parent listed below)

/-- What is deleted is not updated before. -/
theorem Difference.receiveAll_of_deleted (difference : w.Difference w' batches) {row : Row}
    (gone : row.id ∈ batches.flatMap Batch.deletes) :
    row.receiveAll (batches.flatMap Batch.updates) = row := by
  refine Row.receiveAll_eq_self fun updated => ?_
  exact (List.nodup_append.1 difference.once).2.2 _ (List.mem_append_right _ updated) _ gone rfl

/-- Before a member and all below it are deleted, they are stored as they have been. -/
theorem Difference.shows (difference : w.Difference w' batches) (valid : w.Valid)
    (valid' : w'.Valid) (same : table.Perm w.rows) {m : Member}
    (deletes : batches.flatMap Batch.deletes = m.ids) :
    Store.Database.Shows w m (Store.Database.accepted table (batches.flatMap Batch.creates)
      (batches.flatMap Batch.updates)) := by
  have closed := difference.closed valid valid' same
  rw [deletes] at closed
  refine ⟨fun row inside gone => ?_, fun row inside gone => ?_, closed⟩
  · rw [← deletes] at gone
    rcases List.mem_append.1 inside with known | created
    · obtain ⟨old, here, rfl⟩ := List.mem_map.1 known
      rw [Row.id_receiveAll] at gone
      rw [difference.receiveAll_of_deleted gone]
      exact same.mem_iff.1 here
    · have stranger := (List.mem_filter.1 (difference.creates.mem_iff.1 created)).2
      have known := (List.mem_filter.1 (difference.deletes.mem_iff.1 gone)).1
      exact absurd known (of_decide_eq_true stranger)
  · rw [← deletes] at gone
    refine List.mem_append_left _ (List.mem_map.2 ⟨row, same.mem_iff.2 inside, ?_⟩)
    exact difference.receiveAll_of_deleted gone

/-- The difference does not depend on the sequence of the batches. -/
theorem Difference.of_perm {batches' : List Batch} (difference : w.Difference w' batches)
    (perm : batches'.Perm batches) : w.Difference w' batches' where
  creates := (perm.flatMap_right _).trans difference.creates
  deletes := (perm.flatMap_right _).trans difference.deletes
  updates update := (perm.flatMap_right _).mem_iff.trans (difference.updates update)
  kinds := difference.kinds
  once := by
    refine (List.Perm.nodup_iff ?_).2 difference.once
    exact (((perm.flatMap_right _).map _).append ((perm.flatMap_right _).map _)).append
      (perm.flatMap_right _)

end Workspace

namespace Rearrangement

variable {r : Rearrangement} {w w' : Workspace}

/-- A batch that deletes members is the only one. -/
theorem Accounts.alone_batches {novel stale frame : List Row}
    (accounts : r.Accounts w w' novel stale frame) :
    (∀ batch ∈ r.batches, batch.deletes = []) ∨ ∃ batch, r.batches = [batch] := by
  rcases accounts.alone with few | none
  · have short : r.batches.length ≤ 1 := by
      apply Nat.le_trans (List.length_filter_le _ r.plans)
      rw [plans, List.length_map]
      exact few
    cases listed : r.batches with
    | nil => exact .inl fun _ inside => absurd inside List.not_mem_nil
    | cons batch rest =>
        rw [listed, List.length_cons] at short
        have last : rest = [] := List.eq_nil_of_length_eq_zero (by omega)
        exact .inr ⟨batch, by rw [last]⟩
  · refine .inl fun batch inside => ?_
    obtain ⟨change, here, rfl⟩ := List.mem_map.1 (List.mem_of_mem_filter inside)
    exact none change here

end Rearrangement

namespace Reconciler

variable {σ κ : Type} {r : Reconciler σ κ} {batch : Batch} {rest : List Batch} {store after : σ}

theorem offer_cons_ok (done : r.backend.commit batch store = (.ok (), after)) :
    r.offer (batch :: rest) store = r.offer rest after := by
  rw [offer, done]

theorem offer_singleton_error {fault : CommitFault}
    (failed : r.backend.commit batch store = (.error fault, after)) :
    r.offer [batch] store = ([(batch.container, fault)], after) := by
  rw [offer, failed]
  rfl

/-- What is accepted in any sequence is accepted when it is offered at once. -/
theorem exists_offerAll_eq (schedule : Schedule) (batches : List Batch) (store : σ) :
    ∃ sequence, sequence.Perm batches ∧ ∀ after, r.offer sequence store = ([], after) →
      r.offerAll batches store schedule = ([], after) := by
  cases schedule with
  | forward => exact ⟨batches, .refl _, fun _ => id⟩
  | backward =>
      refine ⟨batches.reverse, List.reverse_perm _, fun after accepted => ?_⟩
      rw [offerAll, accepted]
      rfl

/-- A single batch is refused in either schedule. -/
theorem offerAll_singleton_error {fault : CommitFault}
    (failed : r.backend.commit batch store = (.error fault, after)) (schedule : Schedule) :
    r.offerAll [batch] store schedule = ([(batch.container, fault)], after) := by
  cases schedule with
  | forward => exact offer_singleton_error failed
  | backward =>
      rw [offerAll, List.reverse_singleton, offer_singleton_error failed]
      rfl

end Reconciler

/-- Whatever is deleted, it is a member with all below it, and the member is not too high. -/
def Rearrangement.Shallow (r : Rearrangement) (w : Workspace) : Prop :=
  ∀ batch ∈ r.batches, batch.deletes = [] ∨
    ∃ m ∈ w.members, batch.deletes = m.ids ∧ m.height ≤ Store.cascadeDepth

namespace Store.Database

variable {db : Database} {stamped : List (Row × Stamps)} {time : String}

/-- Batches that delete nothing may be carried out one by one. -/
theorem Accepts.offer_eq {batches : List Batch} (accepts : db.Accepts (stamped.map Prod.fst)
      (batches.flatMap Batch.creates) (batches.flatMap Batch.updates))
    (none : ∀ batch ∈ batches, batch.deletes = []) :
    (reconciler time).offer batches (db.listing stamped) = ([], db.listing (taken stamped
      (batches.flatMap Batch.creates) (batches.flatMap Batch.updates) time)) := by
  induction batches generalizing stamped with
  | nil => exact congrArg (fun rows => ([], db.listing rows)) (taken_nil stamped time).symm
  | cons batch batches ih =>
      rw [List.flatMap_cons, List.flatMap_cons] at accepts
      have kept := none batch (.head _)
      have applied := @Accepts.apply _ _ time _ accepts.first
        (fun _ _ _ _ gone => absurd (kept ▸ gone) List.not_mem_nil)
        (fun sinks => not_sinks_nil (kept ▸ sinks))
      rw [kept, List.filter_eq_self.2 fun _ _ => decide_eq_true List.not_mem_nil] at applied
      have rest := accepts.rest
      rw [← map_fst_taken _ _ _ time] at rest
      have later := ih rest fun batch inside => none batch (.tail _ inside)
      rw [accepts.taken_taken] at later
      exact (Reconciler.offer_cons_ok (congrArg answer applied)).trans later

theorem offerRoots_rooted {r : Rearrangement} {stamped : List (Root × Stamps)}
    (known : ∀ update ∈ r.roots.elim [] (·.plan.updates), update.id ∈ stamped.map (·.1.id)) :
    (reconciler time).offerRoots r.rootBatch? (db.rooted stamped) = (.ok (),
      db.rooted (stamped.map (renumbered (r.roots.elim [] (·.plan.updates)) time))) := by
  have same : stamped.map (renumbered [] time) = stamped := List.map_id _
  cases changed : r.roots with
  | none =>
      rw [Rearrangement.rootBatch?, changed, Option.elim_none, same]
      rfl
  | some roots =>
      rw [changed, Option.elim_some] at known
      rw [Rearrangement.rootBatch?, changed, Option.map_some, Option.elim_some]
      by_cases empty : roots.plan.isEmpty = true
      · have none : roots.plan.updates = [] := List.isEmpty_iff.1 empty
        rw [Option.filter_some_neg (by simp [empty]), none, same]
        rfl
      · rw [Option.filter_some_pos (by simp [empty])]
        exact congrArg answer (applyRoots_rooted known)

section

variable {w w' : Workspace} {r : Rearrangement} (outcome : w.Outcome r w') (valid : w.Valid)
  (same : (stamped.map Prod.fst).Perm w.rows)
  (roots : ∀ root ∈ w.roots, root.id.text ∈ db.roots.map RootRow.id)

include outcome valid same

/-- The deletion of a member is too deep just if the member is too high. -/
theorem sinks_iff_of_outcome {batch : Batch} (single : r.batches = [batch]) {m : Member}
    (member : m ∈ w.members) (deletes : batch.deletes = m.ids) :
    Sinks (db.listing (taken stamped batch.creates batch.updates time)).members batch.deletes ↔
      cascadeDepth < m.height := by
  have difference := Rearrangement.difference_batches (outcome.difference valid)
  rw [single] at difference
  have shows := difference.shows valid outcome.valid same (m := m) (by simpa using deletes)
  simp only [List.flatMap_cons, List.flatMap_nil, List.append_nil] at shows
  rw [← map_fst_taken _ _ _ time] at shows
  obtain ⟨site, stands⟩ := Workspace.exists_stands_of_mem member
  rw [deletes]
  exact shows.sinks_iff valid.members_distinct stands valid.roots_distinct

include roots

variable (db time) in
/-- All batches for a rearrangement are accepted in any sequence, and leave the rows of its
outcome. -/
theorem exists_offer_eq (shallow : r.Shallow w) {batches : List Batch}
    (perm : batches.Perm r.batches) : ∃ stamped',
      (reconciler time).offer batches (db.listing stamped) = ([], db.listing stamped') ∧
      (stamped'.map Prod.fst).Perm w'.rows := by
  have planned := Rearrangement.difference_batches (outcome.difference valid)
  have difference := planned.of_perm perm
  have accepts := outcome.accepts difference valid same roots
  have rows := difference.accepted_perm valid outcome.valid same
  obtain ⟨novel, stale, frame, accounts⟩ := outcome.accounts
  rcases accounts.alone_batches with none | ⟨batch, single⟩
  · have none : ∀ batch ∈ batches, batch.deletes = [] := fun batch inside =>
      none batch (perm.mem_iff.1 inside)
    refine ⟨_, accepts.offer_eq none, ?_⟩
    rw [map_fst_taken]
    rwa [List.flatMap_eq_nil_iff.2 none,
      List.filter_eq_self.2 fun _ _ => decide_eq_true List.not_mem_nil] at rows
  · have closed := difference.closed valid outcome.valid same
    obtain rfl := List.perm_singleton.1 (single ▸ perm)
    simp only [List.flatMap_cons, List.flatMap_nil, List.append_nil] at rows accepts closed
    have free : ¬ Sinks (db.listing (taken stamped batch.creates batch.updates time)).members
        batch.deletes := by
      rcases shallow batch (single ▸ .head _) with none | ⟨m, member, deletes, low⟩
      · rw [none]
        exact not_sinks_nil
      · rw [sinks_iff_of_outcome outcome valid same single member deletes]
        exact Nat.not_lt_of_le low
    have applied := accepts.apply closed free
    refine ⟨_, (Reconciler.offer_cons_ok (congrArg answer applied)).trans rfl, ?_⟩
    rw [← map_fst_taken _ _ _ time, List.filter_map] at rows
    exact rows

variable (time) in
/-- A member that is too high is not deleted. -/
theorem commit_eq_of_high {batch : Batch} (single : r.batches = [batch]) {m : Member}
    (member : m ∈ w.members) (deletes : batch.deletes = m.ids) (high : cascadeDepth < m.height) :
    (reconciler time).backend.commit batch (db.listing stamped) =
      (.error (.storage Fault.tooDeep.message), db.listing stamped) := by
  have sinks : Sinks (db.listing (taken stamped batch.creates batch.updates time)).members
      batch.deletes := (sinks_iff_of_outcome outcome valid same single member deletes).2 high
  have difference := Rearrangement.difference_batches (outcome.difference valid)
  have accepts := outcome.accepts difference valid same roots
  rw [single] at accepts
  simp only [List.flatMap_cons, List.flatMap_nil, List.append_nil] at accepts
  exact congrArg answer (accepts.apply_of_sinks sinks)

end

end Store.Database

namespace Workspace

variable {w w' : Workspace} {r : Rearrangement}

/-- The updates give every root the number that it has in the outcome. -/
theorem Outcome.roots_perm (outcome : w.Outcome r w') (valid : w.Valid) :
    ((w.roots.map Root.shallow).map (Root.receiveAll (r.roots.elim [] (·.plan.updates)))).Perm
      (w'.roots.map Root.shallow) := by
  have difference := outcome.rootDifference valid
  have listed : ∀ root ∈ w'.roots.map Root.shallow, root ∈ (w.roots.map Root.shallow).map
      (Root.receiveAll (r.roots.elim [] (·.plan.updates))) := by
    rw [List.forall_mem_map]
    intro new inside
    obtain ⟨old, here, fields⟩ := outcome.known_roots new inside
    have id : new.id = old.id := (congrArg Root.id fields :)
    refine List.mem_map.2 ⟨old.shallow, List.mem_map_of_mem here, ?_⟩
    by_cases same : old.order = new.order
    · rw [fields, ← same]
      apply Root.receiveAll_eq_self
      intro updated
      obtain ⟨update, command, own⟩ := List.mem_map.1 updated
      obtain ⟨old', here', new', inside', ids, differs, rfl⟩ :=
        (difference.updates update).1 command
      apply differs
      rwa [List.inj_on_of_nodup_map valid.roots_distinct here' here (ids.trans own),
        List.inj_on_of_nodup_map outcome.valid.roots_distinct inside' inside (own.trans id.symm)]
    · have command := (difference.updates ⟨new.id, new.order⟩).2
        ⟨old, here, new, inside, id.symm, same, rfl⟩
      rw [fields]
      exact Root.receiveAll_eq_updated difference.once command id
  refine (List.Subperm.perm_of_length_le (List.subperm_of_subset ?_ listed) ?_).symm
  · apply List.Nodup.of_map Root.id
    rw [List.map_map]
    exact outcome.valid.roots_distinct
  · have length := outcome.root_ids.length_eq
    simp only [List.length_map] at length ⊢
    exact Nat.le_of_eq length.symm

end Workspace

namespace Store.Database

variable {db : Database} {w w' : Workspace} {r : Rearrangement}

section

variable (keeps : db.Keeps w)

include keeps

theorem Keeps.stored_roots : ∀ root ∈ w.roots, root.id.text ∈ db.roots.map RootRow.id := by
  obtain ⟨⟨stamped, rows, fields⟩, -⟩ := keeps
  intro root inside
  obtain ⟨entry, listed, same⟩ := List.mem_map.1 (fields.mem_iff.2 (List.mem_map_of_mem inside))
  rw [rows]
  refine List.mem_map.2 ⟨_, List.mem_map_of_mem listed, ?_⟩
  exact congrArg Id.text (congrArg Root.id same :)

variable (valid : w.Valid) (outcome : w.Outcome r w')

include valid outcome

/-- Tables that keep a workspace accept the numbers of roots that are planned for it.  What is left
to do concerns members only. -/
theorem Keeps.exists_offerRoots (time : String) :
    ∃ (between : Database) (stamped : List (Row × Stamps)),
      (reconciler time).offerRoots r.rootBatch? db = (.ok (), between.listing stamped) ∧
      (stamped.map Prod.fst).Perm w.rows ∧
      (∀ root ∈ w.roots, root.id.text ∈ between.roots.map RootRow.id) ∧
      ∀ stamped' : List (Row × Stamps), (stamped'.map Prod.fst).Perm w'.rows →
        (between.listing stamped').Keeps w' := by
  obtain ⟨⟨dated, rootRows, roots⟩, stamped, rows, members⟩ := keeps
  have start : db = (db.listing stamped).rooted dated := by
    rw [rooted, listing, ← rootRows, ← rows]
  have ids : (dated.map (·.1.id)).Perm (w.roots.map Root.id) := by
    have ids := roots.map Root.id
    rwa [List.map_map, List.map_map] at ids
  have known : ∀ update ∈ r.roots.elim [] (·.plan.updates), update.id ∈ dated.map (·.1.id) := by
    intro update inside
    obtain ⟨old, here, new, -, same, -, rfl⟩ :=
      ((outcome.rootDifference valid).updates update).1 inside
    rw [ids.mem_iff, ← same]
    exact List.mem_map_of_mem here
  have fields := (roots.map _).trans (outcome.roots_perm valid)
  rw [← map_fst_renumbered _ time] at fields
  have offered := @offerRoots_rooted (db.listing stamped) time r dated known
  rw [← start] at offered
  let between := db.rooted
    (dated.map (renumbered (r.roots.elim [] (·.plan.updates)) time))
  have kept : ∀ stamped' : List (Row × Stamps), (stamped'.map Prod.fst).Perm w'.rows →
      (between.listing stamped').Keeps w' := fun stamped' perm =>
    ⟨⟨_, rfl, fields⟩, stamped', rfl, perm⟩
  refine ⟨between, stamped, offered, members, fun root inside => ?_, kept⟩
  obtain ⟨new, here, same⟩ :=
    List.mem_map.1 (outcome.root_ids.mem_iff.2 (List.mem_map_of_mem inside))
  rw [← same]
  exact (kept (inserted w'.rows time) (.of_eq (map_fst_inserted ..))).stored_roots new here

/-- A rearrangement that deletes no member that is too high is committed to tables that keep the
workspace beside them, in either schedule, and both are the outcome afterwards. -/
theorem Keeps.commit (ascending : w.Ascending) (shallow : r.Shallow w) (schedule : Schedule)
    (time : String) : ∃ report after,
      (reconciler time).commit r ⟨db, w⟩ schedule = (.ok report, ⟨after, w'⟩) ∧ after.Keeps w' := by
  obtain ⟨between, stamped, roots, same, stored, kept⟩ := keeps.exists_offerRoots valid outcome time
  obtain ⟨sequence, perm, accepted⟩ := (reconciler time).exists_offerAll_eq schedule r.batches
    (between.listing stamped)
  obtain ⟨stamped', offered, rows⟩ :=
    exists_offer_eq between time outcome valid same stored shallow perm
  have batches := accepted _ offered
  unfold Reconciler.commit
  dsimp only
  split
  next idle =>
    rw [Bool.and_eq_true, List.isEmpty_iff, Option.isNone_iff_eq_none] at idle
    obtain rfl := outcome.eq_of_idle valid ascending idle.1 idle.2
    exact ⟨_, db, rfl, keeps⟩
  next =>
    rw [roots]
    dsimp only
    rw [batches]
    dsimp only
    have written := Reconciler.writeBack_eq (backend time) outcome.carried
    exact ⟨_, _, by rw [← written]; rfl, kept stamped' rows⟩

/-- A rearrangement that deletes a member that is too high is refused, and changes nothing. -/
theorem Keeps.commit_of_high {batch : Batch} (single : r.batches = [batch])
    (none : r.rootBatch? = none) {m : Member} (member : m ∈ w.members)
    (deletes : batch.deletes = m.ids) (high : cascadeDepth < m.height) (schedule : Schedule)
    (time : String) : (reconciler time).commit r ⟨db, w⟩ schedule =
      (.error (.commitFailed 1 [(batch.container, .storage Fault.tooDeep.message)]), ⟨db, w⟩) := by
  have stored := keeps.stored_roots
  obtain ⟨-, stamped, rows, same⟩ := keeps
  have start : db = db.listing stamped := by
    rw [listing, ← rows]
  have failed := commit_eq_of_high time outcome valid same stored single member deletes high
  rw [← start] at failed
  have offered := Reconciler.offerAll_singleton_error (r := reconciler time) failed schedule
  unfold Reconciler.commit
  rw [single, none]
  dsimp only [List.isEmpty_cons, Bool.false_and, Reconciler.offerRoots]
  rw [offered]
  rfl

end

end Store.Database

end Outline

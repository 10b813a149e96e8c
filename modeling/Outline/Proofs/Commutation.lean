import Outline.Proofs.Commits
import Outline.Proofs.Failures
import Outline.Proofs.Grounds

/-!
# Batches in either sequence

A member that goes from one container to another takes two batches.  No member is the subject of
commands in both, and tables that keep the workspace accept the two in either sequence and are the
same in the end (`Outline.Store.Database.Keeps.batches_commute`).
-/

namespace Outline

/-- The members that the commands of a batch create, update or delete.  The containers that the
commands refer to are not meant. -/
def Batch.ids (batch : Batch) : List Id :=
  batch.creates.map Row.id ++ batch.updates.map Update.id ++ batch.deletes

namespace Workspace

variable {w w' : Workspace} {batches : List Batch}

/-- A move between containers has a batch for the list where the member is and one for the list
where it goes. -/
theorem exists_two_plans {move : Move} {planned : Rearrangement} {destination : Container}
    (computed : w.rearrange move = .ok planned) (crosses : move.destination? = some destination) :
    ∃ source target, planned.plans = [source, target] ∧
      move.containers = [source.container, target.container] ∧ target.container = destination := by
  obtain ⟨container, containers⟩ : ∃ container, move.containers = [container, destination] := by
    cases move <;> cases crosses <;> exact ⟨_, rfl⟩
  have touched := (grounds_of_rearrange computed).changes.trans containers
  obtain ⟨source, later, changes, rfl, rest⟩ := List.map_eq_cons_iff.1 touched
  obtain ⟨target, none, rfl, rfl, last⟩ := List.map_eq_cons_iff.1 rest
  obtain rfl := List.map_eq_nil_iff.1 last
  refine ⟨source.plan, target.plan, ?_, containers, rfl⟩
  rw [Rearrangement.plans, changes]
  rfl

/-- A move between containers leaves the list of roots as it is. -/
theorem roots_of_crosses {move : Move} {planned : Rearrangement} {destination : Container}
    (computed : w.rearrange move = .ok planned) (crosses : move.destination? = some destination) :
    planned.roots = none := by
  refine roots_of_rearrange computed ?_
  cases move with
  | ofRoot => cases crosses
  | _ => rfl

/-- No member is the subject of commands in two batches. -/
theorem Difference.disjoint_ids {source target : Batch}
    (difference : w.Difference w' [source, target]) : source.ids.Disjoint target.ids := by
  have once := difference.once
  simp only [List.flatMap_cons, List.flatMap_nil, List.append_nil, List.map_append] at once
  intro id first second
  simp only [Batch.ids, List.mem_append] at first second
  grind [List.nodup_append]

/-- Where no member comes or goes, nothing is created or deleted. -/
theorem Difference.updates_only (difference : w.Difference w' batches) (same : w'.ids.Perm w.ids) :
    ∀ batch ∈ batches, batch.creates = [] ∧ batch.deletes = [] := by
  have creates : batches.flatMap Batch.creates = [] := by
    refine List.Perm.eq_nil (difference.creates.trans (.of_eq (List.filter_eq_nil_iff.2 ?_)))
    intro row listed
    simpa using same.mem_iff.1 (id_mem_of_mem_rows listed)
  have deletes : batches.flatMap Batch.deletes = [] := by
    refine List.Perm.eq_nil (difference.deletes.trans (.of_eq (List.filter_eq_nil_iff.2 ?_)))
    intro id listed
    simpa using same.mem_iff.2 listed
  exact fun batch inside => ⟨List.flatMap_eq_nil_iff.1 creates batch inside,
    List.flatMap_eq_nil_iff.1 deletes batch inside⟩

end Workspace

namespace Store.Database

variable {db : Database} {w w' : Workspace} {r : Rearrangement}

/-- Updates of different members may be received in either sequence, each at its own time. -/
theorem received_comm {first second : List Update}
    (apart : (first.map Update.id).Disjoint (second.map Update.id)) (time time' : String)
    (entry : Row × Stamps) : received second time' (received first time entry) =
      received first time (received second time' entry) := by
  have id : ∀ updates time, (received updates time entry).1.id = entry.1.id :=
    fun updates _ => entry.1.id_receiveAll updates
  by_cases own : entry.1.id ∈ first.map Update.id
  · have other := List.disjoint_left.1 apart own
    have still : (received first time entry).1.id ∉ second.map Update.id := by rwa [id]
    rw [received_of_not_mem other, received_of_not_mem still]
  · have still : (received second time' entry).1.id ∉ first.map Update.id := by rwa [id]
    rw [received_of_not_mem own, received_of_not_mem still]

theorem map_fst_received_received (first second : List Update) (time time' : String)
    (stamped : List (Row × Stamps)) :
    ((stamped.map (received first time)).map (received second time')).map Prod.fst =
      accepted (stamped.map Prod.fst) [] (first ++ second) := by
  rw [accepted, List.append_nil, List.map_map, List.map_map, List.map_map]
  exact List.map_congr_left fun entry _ => (entry.1.receiveAll_append first second).symm

variable {stamped : List (Row × Stamps)} {time time' : String}

/-- A batch that only updates rows is carried out. -/
theorem Accepts.apply_updates {batch : Batch} (creates : batch.creates = [])
    (deletes : batch.deletes = [])
    (accepts : db.Accepts (stamped.map Prod.fst) [] batch.updates) :
    (db.listing stamped).apply batch time =
      (.ok (), db.listing (stamped.map (received batch.updates time))) := by
  have applied := @Accepts.apply _ _ time batch (creates ▸ accepts)
    (fun _ _ _ _ gone => absurd (deletes ▸ gone) List.not_mem_nil)
    (fun sinks => not_sinks_nil (deletes ▸ sinks))
  rwa [creates, deletes, List.filter_eq_self.2 fun _ _ => decide_eq_true List.not_mem_nil, taken,
    inserted, List.map_nil, List.append_nil] at applied

variable (time time') in
/-- Two batches that only update rows are carried out one after the other. -/
theorem Accepts.apply_apply {first second : Batch}
    (only : ∀ batch ∈ [first, second], batch.creates = [] ∧ batch.deletes = [])
    (accepts : db.Accepts (stamped.map Prod.fst) [] (first.updates ++ second.updates)) :
    ∃ between, (db.listing stamped).apply first time = (.ok (), between) ∧
      between.apply second time' = (.ok (), db.listing
        ((stamped.map (received first.updates time)).map (received second.updates time'))) := by
  obtain ⟨creates, deletes⟩ := only first (.head _)
  obtain ⟨creates', deletes'⟩ := only second (.tail _ (.head _))
  have both : db.Accepts (stamped.map Prod.fst) ([] ++ []) (first.updates ++ second.updates) :=
    accepts
  have rest := both.rest
  rw [accepted, List.append_nil, List.map_map] at rest
  refine ⟨_, Accepts.apply_updates creates deletes both.first,
    Accepts.apply_updates creates' deletes' ?_⟩
  rw [List.map_map]
  exact rest

/-- The two batches of a move between containers are about different members.  Tables that keep the
workspace accept them in either sequence, whenever each is carried out, and then they keep the
workspace that the move leads to, with the very same rows. -/
theorem Keeps.batches_commute (keeps : db.Keeps w) (valid : w.Valid) {payload : Payload}
    {location : Location} {move : Move} {destination : Container}
    (classified : w.classify payload location = .ok move)
    (crosses : move.destination? = some destination) :
    ∃ planned w' source target, w.rearrange move = .ok planned ∧
      planned.carryOut w = .ok w' ∧ planned.plans = [source, target] ∧
      move.containers = [source.container, target.container] ∧
      target.container = destination ∧ source.ids.Disjoint target.ids ∧
      ∀ time time', ∃ first second after,
        db.apply source time = (.ok (), first) ∧ first.apply target time' = (.ok (), after) ∧
        db.apply target time' = (.ok (), second) ∧ second.apply source time = (.ok (), after) ∧
        after.Keeps w' := by
  obtain ⟨planned, w', computed, outcome, ids, -⟩ :=
    valid.exists_outcome_of_admits (Workspace.admits_of_classify classified)
  obtain ⟨source, target, plans, containers, there⟩ :=
    Workspace.exists_two_plans computed crosses
  have difference := outcome.difference valid
  rw [plans] at difference
  have disjoint := difference.disjoint_ids
  have only := difference.updates_only ids
  have stored := keeps.stored_roots
  obtain ⟨⟨dated, rootRows, roots⟩, stamped, rows, members⟩ := keeps
  have start : db = db.listing stamped := by rw [listing, ← rows]
  have still := outcome.same_roots (Workspace.roots_of_crosses computed crosses)
  have accepts : ∀ first second : Batch, [first, second].Perm [source, target] →
      db.Accepts (stamped.map Prod.fst) [] (first.updates ++ second.updates) := by
    intro first second sequence
    have accepts := outcome.accepts (difference.of_perm sequence) valid members stored
    have created := only first (sequence.mem_iff.1 (.head _))
    have created' := only second (sequence.mem_iff.1 (.tail _ (.head _)))
    simpa [created.1, created'.1] using accepts
  refine ⟨planned, w', source, target, computed, outcome.carried, plans, containers, there,
    disjoint, fun time time' => ?_⟩
  obtain ⟨first, forward, forward'⟩ :=
    Accepts.apply_apply time time' only (accepts _ _ (.refl _))
  obtain ⟨second, backward, backward'⟩ := Accepts.apply_apply time' time
    (fun batch inside => only batch ((List.Perm.swap ..).mem_iff.1 inside))
    (accepts _ _ (.swap ..))
  have apart : (source.updates.map Update.id).Disjoint (target.updates.map Update.id) :=
    List.disjoint_left.2 fun id inside inside' => List.disjoint_left.1 disjoint
      (List.mem_append_left _ (List.mem_append_right _ inside))
      (List.mem_append_left _ (List.mem_append_right _ inside'))
  have same : (stamped.map (received target.updates time')).map (received source.updates time) =
      (stamped.map (received source.updates time)).map (received target.updates time') := by
    rw [List.map_map, List.map_map]
    exact List.map_congr_left fun entry _ => (received_comm apart time time' entry).symm
  have left := difference.accepted_perm valid outcome.valid members
  rw [same] at backward'
  rw [← start] at forward backward
  refine ⟨first, second, _, forward, forward', backward, backward',
    ⟨dated, rootRows, still ▸ roots⟩, _, rfl, ?_⟩
  have created := only source (.head _)
  have created' := only target (.tail _ (.head _))
  rw [map_fst_received_received]
  simpa [created.1, created.2, created'.1, created'.2] using left

open Reconciler Request in
/-- The note that stands first is dropped onto the folder: one batch moves the folder up, the other
moves the note. -/
theorem noteFirst_batches_commute :
    let db := ofRows noteFirst.roots noteFirst.rows.reverse
    ∃ planned source target,
      noteFirst.rearrange (.intoMember looseNote (.ofNode { bits := 1 } { bits := 2 })) =
        .ok planned ∧ planned.batches = [source, target] ∧ source.ids.Disjoint target.ids ∧
      ∀ time time', ∃ first second after,
        db.apply source time = (.ok (), first) ∧ first.apply target time' = (.ok (), after) ∧
        db.apply target time' = (.ok (), second) ∧ second.apply source time = (.ok (), after) := by
  intro db
  have valid : noteFirst.Valid := ⟨by decide, by decide, by decide⟩
  have keeps : db.Keeps noteFirst := keeps_ofRows (List.reverse_perm _) _
  have classified : noteFirst.classify (.member .treeNode looseNote) ontoFolder =
    .ok (.intoMember looseNote (.ofNode { bits := 1 } { bits := 2 })) := rfl
  obtain ⟨planned, _, source, target, computed, -, plans, -, -, disjoint, either⟩ :=
    keeps.batches_commute valid classified rfl
  have batches : planned.batches = planned.plans := by
    obtain rfl := Except.ok.inj (computed.symm.trans rfl)
    rfl
  refine ⟨planned, source, target, computed, batches.trans plans, disjoint, fun time time' => ?_⟩
  obtain ⟨first, second, after, forward, forward', backward, backward', -⟩ := either time time'
  exact ⟨first, second, after, forward, forward', backward, backward'⟩

end Store.Database

end Outline

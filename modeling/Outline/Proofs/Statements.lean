import Mathlib.Data.List.Perm.Basic
import Outline.Proofs.Loading
import Outline.Proofs.Transactions

/-!
# Statements on rows

Batches on tables whose stored members are given as rows with their stamps.  A batch that breaks no
rule, and whose deletions are closed below and not too deep, does to the stored rows what its
commands say of rows (`Outline.Store.Database.Accepts.apply`).
-/

namespace Outline

section

variable {α β : Type} {idOf : α → Id} {target : β → Id} {change : α → β → α}
  (others : ∀ x u, idOf x ≠ target u → change x u = x)

include others

/-- Changes of other items leave an item as it is. -/
theorem foldl_eq_self {us : List β} {x : α} (apart : idOf x ∉ us.map target) :
    us.foldl change x = x := by
  induction us with
  | nil => rfl
  | cons u us ih =>
      rw [List.map_cons, List.mem_cons, not_or] at apart
      rw [List.foldl_cons, others x u apart.1, ih apart.2]

/-- Among changes of distinct items, an item's own one counts. -/
theorem foldl_eq_change (keeps : ∀ x u, idOf (change x u) = idOf x) {us : List β}
    (distinct : (us.map target).Nodup) {u : β} (inside : u ∈ us) {x : α} (own : target u = idOf x) :
    us.foldl change x = change x u := by
  obtain ⟨front, back, rfl⟩ := List.append_of_mem inside
  rw [List.map_append, List.map_cons] at distinct
  obtain ⟨-, later, apart⟩ := List.nodup_append.1 distinct
  have before : idOf x ∉ front.map target := fun listed => apart _ listed _ (.head _) own.symm
  have after : idOf (change x u) ∉ back.map target := by
    rw [List.nodup_cons, own] at later
    rw [keeps]
    exact later.1
  rw [List.foldl_append, foldl_eq_self others before, List.foldl_cons, foldl_eq_self others after]

end

namespace Row

/-- The row with the fields of the update, if the update is its own. -/
def receive (row : Row) (update : Update) : Row :=
  if row.id = update.id then row.updated update else row

/-- The row after all updates. -/
def receiveAll (updates : List Update) (row : Row) : Row :=
  updates.foldl receive row

variable {row : Row} {updates : List Update}

@[simp] theorem id_receive (row : Row) (update : Update) : (row.receive update).id = row.id := by
  unfold receive
  split <;> rfl

@[simp] theorem id_receiveAll (updates : List Update) (row : Row) :
    (row.receiveAll updates).id = row.id := by
  induction updates generalizing row with
  | nil => rfl
  | cons update updates ih => exact (ih (row.receive update)).trans (row.id_receive update)

theorem receiveAll_append (first second : List Update) (row : Row) :
    row.receiveAll (first ++ second) = (row.receiveAll first).receiveAll second :=
  List.foldl_append

theorem receiveAll_eq_self (apart : row.id ∉ updates.map Update.id) :
    row.receiveAll updates = row :=
  foldl_eq_self (fun _ _ other => if_neg other) apart

theorem receiveAll_eq_updated (distinct : (updates.map Update.id).Nodup) {update : Update}
    (inside : update ∈ updates) (own : update.id = row.id) :
    row.receiveAll updates = row.updated update :=
  (foldl_eq_change (fun _ _ other => if_neg other) id_receive distinct inside own).trans
    (if_pos own.symm)

end Row

namespace Root

/-- The root with the number of the update, if the update is its own. -/
def receive (root : Root) (update : RootUpdate) : Root :=
  if root.id = update.id then { root with order := update.order } else root

/-- The root after all updates. -/
def receiveAll (updates : List RootUpdate) (root : Root) : Root :=
  updates.foldl receive root

variable {root : Root} {updates : List RootUpdate}

@[simp] theorem id_receive (root : Root) (update : RootUpdate) :
    (root.receive update).id = root.id := by
  unfold receive
  split <;> rfl

theorem receiveAll_eq_self (apart : root.id ∉ updates.map RootUpdate.id) :
    root.receiveAll updates = root :=
  foldl_eq_self (fun _ _ other => if_neg other) apart

theorem receiveAll_eq_updated (distinct : (updates.map RootUpdate.id).Nodup) {update : RootUpdate}
    (inside : update ∈ updates) (own : update.id = root.id) :
    root.receiveAll updates = { root with order := update.order } :=
  (foldl_eq_change (fun _ _ other => if_neg other) id_receive distinct inside own).trans
    (if_pos own.symm)

end Root

namespace Store

/-- The stamps of a row that is updated at some time. -/
def Stamps.touched (stamps : Stamps) (time : String) : Stamps :=
  { stamps with updatedAt := time }

/-- A row with its stamps after updates at some time. -/
def received (updates : List Update) (time : String) (entry : Row × Stamps) : Row × Stamps :=
  (entry.1.receiveAll updates,
    if entry.1.id ∈ updates.map Update.id then entry.2.touched time else entry.2)

theorem received_of_not_mem {updates : List Update} {entry : Row × Stamps}
    (apart : entry.1.id ∉ updates.map Update.id) (time : String) :
    received updates time entry = entry := by
  rw [received, Row.receiveAll_eq_self apart, if_neg apart]

theorem received_append (first second : List Update) (time : String) (entry : Row × Stamps) :
    received (first ++ second) time entry = received second time (received first time entry) := by
  unfold received
  rw [Row.id_receiveAll, ← Row.receiveAll_append]
  by_cases before : entry.1.id ∈ first.map Update.id <;>
    by_cases later : entry.1.id ∈ second.map Update.id <;>
    simp [before, later, Stamps.touched]

theorem received_own {update : Update} {entry : Row × Stamps} (own : entry.1.id = update.id)
    (time : String) :
    received [update] time entry = (entry.1.updated update, entry.2.touched time) := by
  have row : entry.1.receiveAll [update] = entry.1.updated update := if_pos own
  have listed : entry.1.id ∈ [update].map Update.id := List.mem_singleton.2 own
  rw [received, row, if_pos listed]

theorem MemberRow.receive_ofRow (entry : Row × Stamps) (update : Update) (time : String) :
    (ofRow entry.1 entry.2).receive update time =
      ofRow (received [update] time entry).1 (received [update] time entry).2 := by
  by_cases own : entry.1.id = update.id
  · rw [received_own own, receive]
    refine (if_pos (congrArg Id.text own)).trans ?_
    obtain ⟨id, order, parent, path, name⟩ := update
    cases order <;> cases path <;> cases parent <;> rfl
  · rw [received_of_not_mem fun listed => own (List.mem_singleton.1 listed), receive]
    exact if_neg fun same => own (Id.text_injective same)

/-- Updates do to a stored row what they do to the row. -/
theorem MemberRow.revised_ofRow (updates : List Update) (time : String) (entry : Row × Stamps) :
    (ofRow entry.1 entry.2).revised updates time =
      ofRow (received updates time entry).1 (received updates time entry).2 := by
  induction updates generalizing entry with
  | nil => exact revised_nil time _
  | cons update updates ih =>
      rw [revised_cons, receive_ofRow, ih, ← received_append]
      rfl

/-- A root with its stamps after updates at some time. -/
def renumbered (updates : List RootUpdate) (time : String) (entry : Root × Stamps) :
    Root × Stamps :=
  (entry.1.receiveAll updates,
    if entry.1.id ∈ updates.map RootUpdate.id then entry.2.touched time else entry.2)

theorem renumbered_cons (update : RootUpdate) (updates : List RootUpdate) (time : String)
    (entry : Root × Stamps) : renumbered (update :: updates) time entry =
      renumbered updates time (renumbered [update] time entry) := by
  have id : (entry.1.receiveAll [update]).id = entry.1.id := entry.1.id_receive update
  unfold renumbered
  rw [id]
  by_cases own : entry.1.id = update.id <;>
    by_cases later : entry.1.id ∈ updates.map RootUpdate.id <;>
    simp [own, later, Stamps.touched, Root.receiveAll]

theorem RootRow.receive_ofRoot (entry : Root × Stamps) (update : RootUpdate) (time : String) :
    (ofRoot entry.1 entry.2).receive update time =
      ofRoot (renumbered [update] time entry).1 (renumbered [update] time entry).2 := by
  unfold receive renumbered
  by_cases own : entry.1.id = update.id
  · have root : entry.1.receiveAll [update] = { entry.1 with order := update.order } := if_pos own
    have listed : entry.1.id ∈ [update].map RootUpdate.id := List.mem_singleton.2 own
    rw [root, if_pos listed]
    exact if_pos (congrArg Id.text own)
  · have apart : entry.1.id ∉ [update.id] := fun listed => own (List.mem_singleton.1 listed)
    rw [Root.receiveAll_eq_self apart]
    refine (if_neg fun same => own (Id.text_injective same)).trans ?_
    exact congrArg (ofRoot entry.1) (if_neg apart).symm

/-- Updates do to a stored root what they do to the root. -/
theorem RootRow.revised_ofRoot (updates : List RootUpdate) (time : String)
    (entry : Root × Stamps) : (ofRoot entry.1 entry.2).revised updates time =
      ofRoot (renumbered updates time entry).1 (renumbered updates time entry).2 := by
  induction updates generalizing entry with
  | nil => rfl
  | cons update updates ih => rw [revised_cons, receive_ofRoot, ih, ← renumbered_cons]

namespace Database

/-- The tables with stored rows for the given members. -/
def listing (db : Database) (stamped : List (Row × Stamps)) : Database :=
  { db with members := stamped.map fun (row, stamps) => .ofRow row stamps }

/-- New rows with their stamps. -/
def inserted (rows : List Row) (time : String) : List (Row × Stamps) :=
  rows.map fun row => (row, .at time)

theorem map_fst_inserted (rows : List Row) (time : String) :
    (inserted rows time).map Prod.fst = rows := by
  rw [inserted, List.map_map]
  exact List.map_id _

/-- A container that a row may refer to where the given members are stored. -/
structure Refers (db : Database) (members : List Id) (container : Container) : Prop where
  root : container.root.text ∈ db.roots.map RootRow.id
  node : ∀ node, container.node = some node → node ∈ members

variable {db : Database} {stamped : List (Row × Stamps)} {time : String}

theorem Refers.mono {members more : List Id} {container : Container}
    (refers : db.Refers members container) (subset : members ⊆ more) :
    db.Refers more container :=
  ⟨refers.root, fun node same => subset (refers.node node same)⟩

theorem mem_ids_listing {id : Id} :
    id.text ∈ (db.listing stamped).members.map MemberRow.id ↔
      id ∈ (stamped.map Prod.fst).map Row.id := by
  have texts : (db.listing stamped).members.map MemberRow.id =
      ((stamped.map Prod.fst).map Row.id).map Id.text := by
    rw [listing, List.map_map, List.map_map, List.map_map]
    rfl
  rw [texts]
  exact List.mem_map_of_injective fun _ _ => Id.text_injective

theorem storing_listing (rows : List Row) :
    (db.listing stamped).storing rows time = db.listing (stamped ++ inserted rows time) := by
  rw [storing, listing, listing, inserted, List.map_append, List.map_map]
  rfl

theorem Refers.provides {container : Container}
    (refers : db.Refers ((stamped.map Prod.fst).map Row.id) container) :
    (db.listing stamped).Provides container :=
  ⟨refers.root, fun node below => mem_ids_listing.2 (refers.node node below)⟩

/-- Among rows that are closed below, none but the first ones go. -/
theorem goes_listing_iff {ids : List Id} (closed : ∀ row ∈ stamped.map Prod.fst, ∀ node,
    row.parent.node = some node → node ∈ ids → row.id ∈ ids) {stored : MemberRow} :
    Goes (db.listing stamped).members (·.id ∈ ids.map Id.text) stored ↔
      stored ∈ (db.listing stamped).members ∧ stored.id ∈ ids.map Id.text := by
  constructor
  · intro goes
    induction goes with
    | own listed opens => exact ⟨listed, opens⟩
    | along listed named _ ih =>
        refine ⟨listed, ?_⟩
        obtain ⟨entry, here, rfl⟩ := List.mem_map.1 listed
        obtain ⟨node, below, same⟩ := Option.map_eq_some_iff.1 named
        obtain ⟨id, going, equal⟩ := List.mem_map.1 ih.2
        obtain rfl := Id.text_injective (equal.trans same.symm)
        exact List.mem_map_of_mem (closed _ (List.mem_map_of_mem here) id below going)
  · rintro ⟨listed, opens⟩
    exact .own listed opens

/-- Creations and updates that break no rule of tables with the given stored rows. -/
structure Accepts (db : Database) (table creates : List Row) (updates : List Update) : Prop where
  distinct : (creates.map Row.id).Nodup
  new : ∀ row ∈ creates, row.id ∉ table.map Row.id
  known : ∀ update ∈ updates, update.id ∈ table.map Row.id
  created : ∀ row ∈ creates, db.Refers (table.map Row.id) row.parent
  moved : ∀ update ∈ updates, ∀ parent, update.parent = some parent →
    db.Refers (table.map Row.id) parent

/-- The stored rows after creations and updates. -/
def accepted (table creates : List Row) (updates : List Update) : List Row :=
  table.map (Row.receiveAll updates) ++ creates

theorem map_id_accepted (table creates : List Row) (updates : List Update) :
    (accepted table creates updates).map Row.id = table.map Row.id ++ creates.map Row.id := by
  rw [accepted, List.map_append, List.map_map]
  exact congrArg (· ++ _) (List.map_congr_left fun row _ => row.id_receiveAll updates)

/-- The stored rows with their stamps after creations and updates. -/
def taken (stamped : List (Row × Stamps)) (creates : List Row) (updates : List Update)
    (time : String) : List (Row × Stamps) :=
  stamped.map (received updates time) ++ inserted creates time

theorem taken_nil (stamped : List (Row × Stamps)) (time : String) :
    taken stamped [] [] time = stamped :=
  (List.append_nil _).trans (List.map_id _)

theorem map_fst_taken (stamped : List (Row × Stamps)) (creates : List Row)
    (updates : List Update) (time : String) : (taken stamped creates updates time).map Prod.fst =
      accepted (stamped.map Prod.fst) creates updates := by
  rw [taken, accepted, List.map_append, map_fst_inserted, List.map_map, List.map_map]
  rfl

/-- Updates of stored rows leave the new ones and their stamps alone. -/
theorem map_received_inserted {table creates : List Row} {updates : List Update}
    (new : ∀ row ∈ creates, row.id ∉ table.map Row.id)
    (known : ∀ update ∈ updates, update.id ∈ table.map Row.id) :
    (inserted creates time).map (received updates time) = inserted creates time := by
  refine (List.map_congr_left fun entry inside => ?_).trans (List.map_id _)
  obtain ⟨row, created, rfl⟩ := List.mem_map.1 inside
  refine received_of_not_mem (fun listed => ?_) time
  obtain ⟨update, here, same⟩ := List.mem_map.1 listed
  exact new row created (same ▸ known update here)

section

variable {table creates later : List Row} {updates updates' : List Update}
  (accepts : db.Accepts table (creates ++ later) (updates ++ updates'))

include accepts

theorem Accepts.first : db.Accepts table creates updates where
  distinct := by
    have distinct := accepts.distinct
    rw [List.map_append] at distinct
    exact (List.nodup_append.1 distinct).1
  new row inside := accepts.new row (List.mem_append_left _ inside)
  known update inside := accepts.known update (List.mem_append_left _ inside)
  created row inside := accepts.created row (List.mem_append_left _ inside)
  moved update inside := accepts.moved update (List.mem_append_left _ inside)

/-- What breaks no rule in one go breaks none in two. -/
theorem Accepts.rest : db.Accepts (accepted table creates updates) later updates' := by
  have distinct := accepts.distinct
  rw [List.map_append] at distinct
  obtain ⟨-, own, apart⟩ := List.nodup_append.1 distinct
  have ids := map_id_accepted table creates updates
  have grows : table.map Row.id ⊆ (accepted table creates updates).map Row.id := by
    rw [ids]
    exact List.subset_append_left ..
  constructor
  · exact own
  · intro row inside listed
    rw [ids, List.mem_append] at listed
    rcases listed with before | here
    · exact accepts.new row (List.mem_append_right _ inside) before
    · exact apart _ here _ (List.mem_map_of_mem inside) rfl
  · exact fun update inside => grows (accepts.known update (List.mem_append_right _ inside))
  · exact fun row inside => (accepts.created row (List.mem_append_right _ inside)).mono grows
  · intro update inside parent moves
    exact (accepts.moved update (List.mem_append_right _ inside) parent moves).mono grows

end

/-- In one go or in two, the same rows are stored in the end. -/
theorem Accepts.taken_taken {creates later : List Row} {updates updates' : List Update}
    (accepts : db.Accepts (stamped.map Prod.fst) (creates ++ later) (updates ++ updates')) :
    taken (taken stamped creates updates time) later updates' time =
      taken stamped (creates ++ later) (updates ++ updates') time := by
  have untouched : (inserted creates time).map (received updates' time) = inserted creates time :=
    map_received_inserted accepts.first.new fun update inside =>
      accepts.known update (List.mem_append_right _ inside)
  unfold taken
  rw [List.map_append, untouched, List.map_map, List.append_assoc, inserted, inserted, inserted,
    List.map_append]
  refine congrArg (· ++ _) (List.map_congr_left fun entry _ => ?_)
  exact (received_append updates updates' time entry).symm

theorem Accepts.revisedMembers_eq {batch : Batch}
    (accepts : db.Accepts (stamped.map Prod.fst) batch.creates batch.updates) :
    (db.listing stamped).revisedMembers batch time =
      (db.listing (taken stamped batch.creates batch.updates time)).members := by
  have received : taken stamped batch.creates batch.updates time =
      (stamped ++ inserted batch.creates time).map (received batch.updates time) := by
    rw [taken, List.map_append, map_received_inserted accepts.new accepts.known]
  rw [received, revisedMembers, storing_listing, listing, listing, List.map_map, List.map_map]
  exact List.map_congr_left fun entry _ => MemberRow.revised_ofRow batch.updates time entry

/-- The only rule that such a batch may break is that deletions are not too deep. -/
theorem Accepts.breaks_iff {batch : Batch}
    (accepts : db.Accepts (stamped.map Prod.fst) batch.creates batch.updates) {fault : Fault} :
    (db.listing stamped).Breaks batch time fault ↔ fault = .tooDeep ∧
      Sinks (db.listing (taken stamped batch.creates batch.updates time)).members
        batch.deletes := by
  have grows : ∀ rows : List Row, (stamped.map Prod.fst).map Row.id ⊆
      ((stamped ++ inserted rows time).map Prod.fst).map Row.id := fun rows => by
    rw [List.map_append, List.map_append]
    exact List.subset_append_left ..
  rw [← accepts.revisedMembers_eq]
  constructor
  · rintro ((⟨split, known⟩ | ⟨split, absent⟩) | strays | sinks)
    · rw [storing_listing, mem_ids_listing, List.map_append, map_fst_inserted, List.map_append,
        List.mem_append] at known
      rcases known with stored | earlier
      · refine absurd stored (accepts.new _ ?_)
        rw [split]
        exact List.mem_append_right _ (.head _)
      · have distinct := accepts.distinct
        rw [split, List.map_append] at distinct
        exact absurd rfl ((List.nodup_append.1 distinct).2.2 _ earlier _ (.head _))
    · rw [storing_listing] at absent
      refine absurd ((accepts.created _ ?_).mono (grows _)).provides absent
      rw [split]
      exact List.mem_append_right _ (.head _)
    · rw [storing_listing] at strays
      rcases strays with ⟨listed, absent⟩ | ⟨listed, moves, absent⟩
      · exact absurd (mem_ids_listing.2 (grows _ (accepts.known _ listed))) absent
      · exact absurd ((accepts.moved _ listed _ moves).mono (grows _)).provides absent
    · exact ⟨rfl, sinks⟩
  · rintro ⟨rfl, sinks⟩
    exact .delete sinks

/-- A batch that breaks no rule is carried out. -/
theorem Accepts.apply {batch : Batch}
    (accepts : db.Accepts (stamped.map Prod.fst) batch.creates batch.updates)
    (closed : ∀ row ∈ accepted (stamped.map Prod.fst) batch.creates batch.updates, ∀ node,
      row.parent.node = some node → node ∈ batch.deletes → row.id ∈ batch.deletes)
    (shallow : ¬ Sinks (db.listing (taken stamped batch.creates batch.updates time)).members
      batch.deletes) :
    (db.listing stamped).apply batch time = (.ok (), db.listing
      ((taken stamped batch.creates batch.updates time).filter (·.1.id ∉ batch.deletes))) := by
  rcases (db.listing stamped).apply_cases batch time with
    ⟨fault, breaks, -⟩ | ⟨-, after, done, completes⟩
  · exact absurd (accepts.breaks_iff.1 breaks).2 shallow
  obtain ⟨applied, roots, ⟨stays, left, keeps⟩, -⟩ := completes
  rw [accepts.revisedMembers_eq] at left keeps
  rw [← map_fst_taken _ _ _ time] at closed
  have members : after.members = (db.listing ((taken stamped batch.creates batch.updates
      time).filter (·.1.id ∉ batch.deletes))).members := by
    rw [left, listing, listing, List.filter_map]
    refine congrArg _ (List.filter_congr fun entry inside => ?_)
    have listed : MemberRow.ofRow entry.1 entry.2 ∈
        (db.listing (taken stamped batch.creates batch.updates time)).members :=
      List.mem_map_of_mem inside
    have text : (MemberRow.ofRow entry.1 entry.2).id ∈ batch.deletes.map Id.text ↔
        entry.1.id ∈ batch.deletes := List.mem_map_of_injective fun _ _ => Id.text_injective
    rw [Bool.eq_iff_iff, decide_eq_true_eq, ← text]
    have goes := (goes_listing_iff closed).trans (and_iff_right listed)
    exact (keeps _ listed).trans (not_congr goes)
  rw [done]
  cases after
  cases applied
  cases roots
  cases members
  rfl

/-- A batch whose deletions are too deep breaks no other rule, and changes nothing. -/
theorem Accepts.apply_of_sinks {batch : Batch}
    (accepts : db.Accepts (stamped.map Prod.fst) batch.creates batch.updates)
    (sinks : Sinks (db.listing (taken stamped batch.creates batch.updates time)).members
      batch.deletes) :
    (db.listing stamped).apply batch time = (.error .tooDeep, db.listing stamped) := by
  rcases (db.listing stamped).apply_cases batch time with ⟨fault, breaks, failed⟩ | ⟨free, -⟩
  · rwa [(accepts.breaks_iff.1 breaks).1] at failed
  · exact absurd (accepts.breaks_iff.2 ⟨rfl, sinks⟩) (free .tooDeep)

/-- The tables with stored rows for the given roots. -/
def rooted (db : Database) (stamped : List (Root × Stamps)) : Database :=
  { db with roots := stamped.map fun (root, stamps) => .ofRoot root stamps }

theorem map_fst_renumbered (updates : List RootUpdate) (time : String)
    (stamped : List (Root × Stamps)) : (stamped.map (renumbered updates time)).map Prod.fst =
      (stamped.map Prod.fst).map (Root.receiveAll updates) := by
  rw [List.map_map, List.map_map]
  rfl

/-- A batch for known roots is carried out. -/
theorem applyRoots_rooted {stamped : List (Root × Stamps)} {batch : RootBatch}
    (known : ∀ update ∈ batch.updates, update.id ∈ stamped.map (·.1.id)) :
    (db.rooted stamped).applyRoots batch time =
      (.ok (), db.rooted (stamped.map (renumbered batch.updates time))) := by
  have rows : (db.rooted stamped).roots.map (.revised batch.updates time) =
      (db.rooted (stamped.map (renumbered batch.updates time))).roots := by
    rw [rooted, rooted, List.map_map, List.map_map]
    exact List.map_congr_left fun entry _ => RootRow.revised_ofRoot batch.updates time entry
  rcases (db.rooted stamped).applyRoots_cases batch time with
    ⟨update, listed, absent, -⟩ | ⟨-, done⟩
  · obtain ⟨entry, inside, same⟩ := List.mem_map.1 (known update listed)
    refine absurd (List.mem_map.2 ⟨_, List.mem_map_of_mem inside, ?_⟩) absent
    exact congrArg Id.text same
  · rw [done, rows]
    rfl

end Database

end Store

end Outline

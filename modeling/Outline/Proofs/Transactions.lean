import Mathlib.Data.List.Basic
import Outline.Proofs.Cascades

/-!
# Batches as transactions

A batch is carried out as a whole or leaves the tables as they were
(`Outline.Store.Database.transactions_whole`).  It fails exactly if one of its commands breaks a
rule, wherever the command stands, or deletes too long a chain of rows at once.  Whatever it inserts
or updates bears the time at which it is carried out.  Nothing is assumed of the tables.
-/

namespace Outline

section

variable {α β : Type} {target : β → Id} {field : β → Option α}

/-- The last value that changes of the given item carry for a field. -/
def lastSet (target : β → Id) (field : β → Option α) (id : String) (changes : List β) : Option α :=
  (changes.filter fun change => (target change).text = id).reverse.findSome? field

theorem lastSet_cons (change : β) (changes : List β) (id : String) :
    lastSet target field id (change :: changes) =
      (lastSet target field id changes).or
        (if (target change).text = id then field change else none) := by
  unfold lastSet
  rw [List.filter_cons]
  by_cases own : (target change).text = id
  · simp [own]
  · simp [own]

theorem lastSet_eq_none {changes : List β} {id : String}
    (apart : id ∉ changes.map fun change => (target change).text) :
    lastSet target field id changes = none := by
  have others : changes.filter (fun change => (target change).text = id) = [] := by
    refine List.filter_eq_nil_iff.2 fun change listed own => apart ?_
    exact List.mem_map.2 ⟨change, listed, of_decide_eq_true own⟩
  rw [lastSet, others]
  rfl

end

namespace Store

namespace MemberRow

/-- The stored row after an update, if the update is its own. -/
def receive (row : MemberRow) (update : Update) (time : String) : MemberRow :=
  if row.id = update.id.text then
    match update.parent with
    | none => row.set update time
    | some parent => (row.set update time).moved parent
  else
    row

/-- The stored row with the last value that its updates carry for each field.  Its root and its
parent are those of one container; if that is a root, the row has no parent.  It bears the time of
its updates, if there are any, whether or not they carry a field. -/
def revised (updates : List Update) (time : String) (row : MemberRow) : MemberRow :=
  let order := lastSet Update.id Update.order row.id updates
  let name := lastSet Update.id Update.name row.id updates
  let path := lastSet Update.id Update.path row.id updates
  let parent := lastSet Update.id Update.parent row.id updates
  { row with
    order := (order.map Int.ofNat).getD row.order
    name := name.getD row.name
    path := (path.map pathText).getD row.path
    rootId := (parent.map fun container => container.root.text).getD row.rootId
    parentId := (parent.map fun container => container.node.map Id.text).getD row.parentId
    updatedAt := if row.id ∈ updates.map (·.id.text) then time else row.updatedAt }

variable {row : MemberRow} {updates : List Update} (time : String)

@[simp] theorem id_receive (row : MemberRow) (update : Update) :
    (row.receive update time).id = row.id := by
  unfold receive
  split
  · split <;> simp only [moved, set]
  · rfl

theorem revised_nil (row : MemberRow) : row.revised [] time = row := rfl

/-- What comes later wins. -/
theorem revised_cons (update : Update) (updates : List Update) (row : MemberRow) :
    row.revised (update :: updates) time = (row.receive update time).revised updates time := by
  simp only [revised, id_receive, lastSet_cons, List.map_cons, List.mem_cons]
  unfold receive
  by_cases own : row.id = update.id.text
  · rw [if_pos own]
    simp only [own, ↓reduceIte, true_or]
    split
    next stays =>
      simp only [set, stays, Option.or_none, Option.map_or, Option.getD_or, ite_self]
    next moves =>
      simp only [set, moved, moves, Option.map_or, Option.getD_or, Option.map_some,
        Option.getD_some, ite_self]
  · simp [own, Ne.symm own]

theorem revised_eq_self (apart : row.id ∉ updates.map (·.id.text)) :
    row.revised updates time = row := by
  simp only [revised, lastSet_eq_none apart, if_neg apart]
  rfl

end MemberRow

namespace RootRow

/-- The stored root after an update, if the update is its own. -/
def receive (row : RootRow) (update : RootUpdate) (time : String) : RootRow :=
  if row.id = update.id.text then { row with order := update.order, updatedAt := time } else row

/-- The stored root with the last number that its updates carry, and with their time if there are
any. -/
def revised (updates : List RootUpdate) (time : String) (row : RootRow) : RootRow :=
  let order := lastSet RootUpdate.id (some ·.order) row.id updates
  { row with
    order := (order.map Int.ofNat).getD row.order
    updatedAt := if row.id ∈ updates.map (·.id.text) then time else row.updatedAt }

@[simp] theorem id_receive (row : RootRow) (update : RootUpdate) (time : String) :
    (row.receive update time).id = row.id := by
  unfold receive
  split <;> rfl

/-- What comes later wins. -/
theorem revised_cons (update : RootUpdate) (updates : List RootUpdate) (time : String)
    (row : RootRow) :
    row.revised (update :: updates) time = (row.receive update time).revised updates time := by
  simp only [revised, id_receive, lastSet_cons, List.map_cons, List.mem_cons]
  unfold receive
  by_cases own : row.id = update.id.text
  · simp only [own, ↓reduceIte, Option.map_or, Option.getD_or, true_or, ite_self]
    rfl
  · simp only [own, false_or, if_neg (Ne.symm own), Option.or_none, ↓reduceIte]

end RootRow

namespace Database

/-- What the container refers to is stored: its root, and the member that it is, if it is one. -/
structure Provides (db : Database) (container : Container) : Prop where
  root : container.root.text ∈ db.roots.map RootRow.id
  node : ∀ node, container.node = some node → node.text ∈ db.members.map MemberRow.id

/-- The tables with rows for new members. -/
def storing (db : Database) (rows : List Row) (time : String) : Database :=
  { db with members := db.members ++ rows.map (.ofRow · (.at time)) }

/-- The tables with other rows for their members. -/
def mapMembers (db : Database) (change : MemberRow → MemberRow) : Database :=
  { db with members := db.members.map change }

/-- How rows cannot be created one after the other.  A row may name a row that is created before it
as its parent, or itself. -/
inductive Bars (db : Database) (creates : List Row) (time : String) : Fault → Prop where
  | taken {earlier later : List Row} {row : Row} (split : creates = earlier ++ row :: later)
      (known : row.id.text ∈ (db.storing earlier time).members.map MemberRow.id) :
      Bars db creates time (.createFailed row.id (.uniqueId "members"))
  | orphaned {earlier later : List Row} {row : Row} (split : creates = earlier ++ row :: later)
      (absent : ¬ (db.storing (earlier ++ [row]) time).Provides row.parent) :
      Bars db creates time (.createFailed row.id .foreignKey)

/-- How rows cannot be updated. -/
inductive Strays (db : Database) (updates : List Update) : Fault → Prop where
  | unknown {update : Update} (listed : update ∈ updates)
      (absent : update.id.text ∉ db.members.map MemberRow.id) :
      Strays db updates (.memberNotFound update.id)
  | astray {update : Update} {parent : Container} (listed : update ∈ updates)
      (moves : update.parent = some parent) (absent : ¬ db.Provides parent) :
      Strays db updates (.broken .foreignKey)

/-- The rows once a batch has created and updated its own, before it deletes any. -/
def revisedMembers (db : Database) (batch : Batch) (time : String) : List MemberRow :=
  (db.storing batch.creates time).members.map (.revised batch.updates time)

/-- How a batch breaks a rule of the tables. -/
inductive Breaks (db : Database) (batch : Batch) (time : String) : Fault → Prop where
  | create {fault : Fault} (bars : db.Bars batch.creates time fault) : Breaks db batch time fault
  | update {fault : Fault} (strays : (db.storing batch.creates time).Strays batch.updates fault) :
      Breaks db batch time fault
  | delete (sinks : Sinks (db.revisedMembers batch time) batch.deletes) :
      Breaks db batch time .tooDeep

variable {db : Database} {time : String}

theorem storing_nil (db : Database) (time : String) : db.storing [] time = db := by
  rw [storing, List.map_nil, List.append_nil]

theorem storing_storing (first second : List Row) :
    (db.storing first time).storing second time = db.storing (first ++ second) time := by
  simp only [storing, List.map_append, List.append_assoc]

theorem hasMember_iff {id : String} :
    db.hasMember id = true ↔ id ∈ db.members.map MemberRow.id := by
  simp [hasMember, List.any_eq_true]

theorem hasRoot_iff {id : String} : db.hasRoot id = true ↔ id ∈ db.roots.map RootRow.id := by
  simp [hasRoot, List.any_eq_true]

theorem holds_iff {container : Container} :
    db.holds container = true ↔ db.Provides container := by
  rw [holds, Bool.and_eq_true]
  constructor
  · rintro ⟨root, node⟩
    refine ⟨hasRoot_iff.1 root, fun id below => ?_⟩
    rw [below, Option.all_some] at node
    exact hasMember_iff.1 node
  · rintro ⟨root, node⟩
    refine ⟨hasRoot_iff.2 root, ?_⟩
    cases below : container.node with
    | none => rfl
    | some id => exact hasMember_iff.2 (node id below)

/-- Rules that concern the first row to be created, and those that concern the others. -/
theorem bars_cons_iff {row : Row} {rows : List Row} {fault : Fault} :
    db.Bars (row :: rows) time fault ↔
      row.id.text ∈ db.members.map MemberRow.id ∧
          fault = .createFailed row.id (.uniqueId "members") ∨
        ¬ (db.storing [row] time).Provides row.parent ∧
          fault = .createFailed row.id .foreignKey ∨
        (db.storing [row] time).Bars rows time fault := by
  constructor
  · rintro (@⟨earlier, later, next, split, known⟩ | @⟨earlier, later, next, split, absent⟩)
    · rcases List.append_eq_cons_iff.1 split.symm with ⟨rfl, same⟩ | ⟨rest, rfl, rfl⟩
      · obtain ⟨rfl, -⟩ := List.cons.inj same
        exact .inl ⟨storing_nil db time ▸ known, rfl⟩
      · refine .inr (.inr (.taken rfl ?_))
        rwa [storing_storing]
    · rcases List.append_eq_cons_iff.1 split.symm with ⟨rfl, same⟩ | ⟨rest, rfl, rfl⟩
      · obtain ⟨rfl, -⟩ := List.cons.inj same
        exact .inr (.inl ⟨absent, rfl⟩)
      · refine .inr (.inr (.orphaned rfl ?_))
        rwa [storing_storing]
  · rintro (⟨known, rfl⟩ | ⟨absent, rfl⟩ | ⟨split, known⟩ | ⟨split, absent⟩)
    · exact @Bars.taken _ _ _ [] _ _ rfl (by rwa [storing_nil])
    · exact @Bars.orphaned _ _ _ [] _ _ rfl absent
    · exact @Bars.taken _ _ _ (row :: _) _ _ (by rw [split]; rfl)
        (by rwa [storing_storing] at known)
    · exact @Bars.orphaned _ _ _ (row :: _) _ _ (by rw [split]; rfl)
        (by rwa [storing_storing] at absent)

theorem insertMember_cases (row : Row) :
    row.id.text ∈ db.members.map MemberRow.id ∧
        db.insertMember row time = .error (.createFailed row.id (.uniqueId "members")) ∨
      row.id.text ∉ db.members.map MemberRow.id ∧
        (¬ (db.storing [row] time).Provides row.parent ∧
            db.insertMember row time = .error (.createFailed row.id .foreignKey) ∨
          (db.storing [row] time).Provides row.parent ∧
            db.insertMember row time = .ok (db.storing [row] time)) := by
  have inserted : { db with members := db.members ++ [.ofRow row (.at time)] } =
    db.storing [row] time := rfl
  rw [← hasMember_iff, ← holds_iff, insertMember, inserted]
  by_cases known : db.hasMember row.id.text = true
  · exact .inl ⟨known, if_pos known⟩
  · refine .inr ⟨known, ?_⟩
    rw [memberExists, if_neg known]
    by_cases held : (db.storing [row] time).holds row.parent = true
    · exact .inr ⟨held, if_pos held⟩
    · exact .inl ⟨held, if_neg held⟩

/-- Rows are created one after the other, unless a rule bars one of them. -/
theorem perform_creates_cases (creates : List Row) :
    (∃ fault, db.Bars creates time fault ∧
        db.perform (creates.map fun row db => db.insertMember row time) = .error fault) ∨
      (∀ fault, ¬ db.Bars creates time fault) ∧
        db.perform (creates.map fun row db => db.insertMember row time) =
          .ok (db.storing creates time) := by
  induction creates generalizing db with
  | nil =>
      refine .inr ⟨?_, by rw [storing_nil]; rfl⟩
      rintro fault (⟨split, -⟩ | ⟨split, -⟩) <;> simp at split
  | cons row rows ih =>
      rw [List.map_cons]
      rcases db.insertMember_cases row with
        ⟨known, failed⟩ | ⟨new, ⟨absent, failed⟩ | ⟨provided, done⟩⟩
      · exact .inl ⟨_, bars_cons_iff.2 (.inl ⟨known, rfl⟩), perform_cons_error failed⟩
      · exact .inl ⟨_, bars_cons_iff.2 (.inr (.inl ⟨absent, rfl⟩)), perform_cons_error failed⟩
      · rw [perform_cons_ok done]
        rcases @ih (db.storing [row] time) with ⟨fault, bars, later⟩ | ⟨free, later⟩
        · exact .inl ⟨fault, bars_cons_iff.2 (.inr (.inr bars)), later⟩
        · refine .inr ⟨fun fault bars => ?_, later.trans ?_⟩
          · rcases bars_cons_iff.1 bars with ⟨known, -⟩ | ⟨absent, -⟩ | bars
            · exact new known
            · exact absent provided
            · exact free fault bars
          · rw [storing_storing]
            rfl

theorem mapMembers_mapMembers (first second : MemberRow → MemberRow) :
    (db.mapMembers first).mapMembers second = db.mapMembers fun row => second (first row) := by
  simp only [mapMembers, List.map_map]
  rfl

theorem map_id_mapMembers {change : MemberRow → MemberRow}
    (keeps : ∀ row, (change row).id = row.id) :
    (db.mapMembers change).members.map MemberRow.id = db.members.map MemberRow.id := by
  rw [mapMembers, List.map_map]
  exact List.map_congr_left fun row _ => keeps row

/-- What is provided does not depend on more than the identifiers. -/
theorem provides_mapMembers_iff {change : MemberRow → MemberRow}
    (keeps : ∀ row, (change row).id = row.id) {container : Container} :
    (db.mapMembers change).Provides container ↔ db.Provides container := by
  have ids := db.map_id_mapMembers keeps
  constructor
  · rintro ⟨root, node⟩
    exact ⟨root, ids ▸ node⟩
  · rintro ⟨root, node⟩
    exact ⟨root, ids.symm ▸ node⟩

theorem strays_mapMembers_iff {change : MemberRow → MemberRow}
    (keeps : ∀ row, (change row).id = row.id) {updates : List Update} {fault : Fault} :
    (db.mapMembers change).Strays updates fault ↔ db.Strays updates fault := by
  have ids := db.map_id_mapMembers keeps
  constructor
  · rintro (⟨listed, absent⟩ | ⟨listed, moves, absent⟩)
    · exact .unknown listed (ids ▸ absent)
    · exact .astray listed moves (mt (provides_mapMembers_iff keeps).2 absent)
  · rintro (⟨listed, absent⟩ | ⟨listed, moves, absent⟩)
    · exact .unknown listed (ids.symm ▸ absent)
    · exact .astray listed moves (mt (provides_mapMembers_iff keeps).1 absent)

/-- Rules that concern the first update, and those that concern the others. -/
theorem strays_cons_iff {update : Update} {updates : List Update} {fault : Fault} :
    db.Strays (update :: updates) fault ↔
      update.id.text ∉ db.members.map MemberRow.id ∧ fault = .memberNotFound update.id ∨
        (∃ parent, update.parent = some parent ∧ ¬ db.Provides parent ∧
          fault = .broken .foreignKey) ∨
        db.Strays updates fault := by
  constructor
  · rintro (@⟨next, listed, absent⟩ | @⟨next, parent, listed, moves, absent⟩)
    · rcases List.mem_cons.1 listed with rfl | later
      · exact .inl ⟨absent, rfl⟩
      · exact .inr (.inr (.unknown later absent))
    · rcases List.mem_cons.1 listed with rfl | later
      · exact .inr (.inl ⟨parent, moves, absent, rfl⟩)
      · exact .inr (.inr (.astray later moves absent))
  · rintro (⟨absent, rfl⟩ | ⟨parent, moves, absent, rfl⟩ | ⟨later, absent⟩ | ⟨later, moves, absent⟩)
    · exact .unknown (.head _) absent
    · exact .astray (.head _) moves absent
    · exact .unknown (.tail _ later) absent
    · exact .astray (.tail _ later) moves absent

/-- The fields of a row are set, its container apart. -/
theorem setMember_cases (update : Update) :
    update.id.text ∉ db.members.map MemberRow.id ∧
        db.setMember update time = .error (.memberNotFound update.id) ∨
      update.id.text ∈ db.members.map MemberRow.id ∧
        db.setMember update time = .ok (db.mapMember update.id.text (·.set update time)) := by
  rw [← hasMember_iff]
  by_cases known : db.hasMember update.id.text = true
  · exact .inr ⟨known, if_pos known⟩
  · exact .inl ⟨known, if_neg known⟩

/-- A row is put into a container. -/
theorem moveMember_cases (id : Id) (parent : Container) :
    ¬ db.Provides parent ∧ db.moveMember id parent = .error (.broken .foreignKey) ∨
      db.Provides parent ∧
        db.moveMember id parent = .ok (db.mapMember id.text (·.moved parent)) := by
  rw [← holds_iff]
  by_cases held : db.holds parent = true
  · exact .inr ⟨held, if_pos held⟩
  · exact .inl ⟨held, if_neg held⟩

/-- What an update does, by what the tables lack. -/
theorem perform_update_cases (update : Update) :
    update.id.text ∉ db.members.map MemberRow.id ∧
        db.perform (update.statements time) = .error (.memberNotFound update.id) ∨
      (∃ parent, update.parent = some parent ∧ ¬ db.Provides parent ∧
        db.perform (update.statements time) = .error (.broken .foreignKey)) ∨
      update.id.text ∈ db.members.map MemberRow.id ∧
        (∀ parent, update.parent = some parent → db.Provides parent) ∧
          db.perform (update.statements time) = .ok (db.mapMembers (·.receive update time)) := by
  rw [Update.statements]
  rcases db.setMember_cases update with ⟨unknown, failed⟩ | ⟨known, done⟩
  · exact .inl ⟨unknown, perform_cons_error failed⟩
  rw [perform_cons_ok done]
  refine .inr ?_
  cases moves : update.parent with
  | none =>
      refine .inr ⟨known, fun _ same => absurd same.symm (Option.some_ne_none _), ?_⟩
      simp only [MemberRow.receive, moves]
      rfl
  | some parent =>
      have keeps : ∀ row : MemberRow,
          (if row.id = update.id.text then row.set update time else row).id = row.id := by
        intro row
        split
        · simp only [MemberRow.set]
        · rfl
      rw [Option.toList_some, List.map_singleton]
      rcases (db.mapMember update.id.text (·.set update time)).moveMember_cases update.id parent
        with ⟨absent, failed⟩ | ⟨provided, moved⟩
      · refine .inl ⟨parent, rfl, fun provided => absent ?_, perform_cons_error failed⟩
        exact (provides_mapMembers_iff keeps).2 provided
      have here := (provides_mapMembers_iff keeps).1 provided
      refine .inr ⟨known, fun _ same => Option.some.inj same ▸ here, ?_⟩
      rw [perform_cons_ok moved, perform_nil]
      refine congrArg Except.ok ((db.mapMembers_mapMembers _ _).trans ?_)
      refine congrArg db.mapMembers (funext fun row => ?_)
      rw [keeps row, MemberRow.receive, moves]
      by_cases own : row.id = update.id.text
      · simp only [if_pos own]
      · simp only [if_neg own]

/-- Rows are updated one after the other, unless a rule forbids one of the updates. -/
theorem perform_updates_cases (updates : List Update) :
    (∃ fault, db.Strays updates fault ∧
        db.perform (updates.flatMap (·.statements time)) = .error fault) ∨
      (∀ fault, ¬ db.Strays updates fault) ∧
        db.perform (updates.flatMap (·.statements time)) =
          .ok (db.mapMembers (.revised updates time)) := by
  induction updates generalizing db with
  | nil =>
      refine .inr ⟨?_, congrArg Except.ok ?_⟩
      · rintro fault (⟨listed, -⟩ | ⟨listed, -⟩) <;> exact absurd listed List.not_mem_nil
      · exact congrArg (fun members => { db with members }) (List.map_id _).symm
  | cons update updates ih =>
      rw [List.flatMap_cons]
      rcases db.perform_update_cases update with
        ⟨unknown, failed⟩ | ⟨parent, moves, absent, failed⟩ | ⟨known, provided, done⟩
      · exact .inl ⟨_, .unknown (.head _) unknown, perform_append_error failed⟩
      · exact .inl ⟨_, .astray (.head _) moves absent, perform_append_error failed⟩
      · rw [perform_append_ok done]
        have keeps := fun row : MemberRow => MemberRow.id_receive time row update
        rcases @ih (db.mapMembers (·.receive update time)) with
          ⟨fault, strays, later⟩ | ⟨free, later⟩
        · rw [strays_mapMembers_iff keeps] at strays
          exact .inl ⟨fault, strays_cons_iff.2 (.inr (.inr strays)), later⟩
        · refine .inr ⟨fun fault strays => ?_, later.trans (congrArg Except.ok ?_)⟩
          · rcases strays_cons_iff.1 strays with ⟨absent, -⟩ | ⟨parent, moves, absent, -⟩ | strays
            · exact absent known
            · exact absent (provided parent moves)
            · exact free fault ((strays_mapMembers_iff keeps).2 strays)
          · refine (db.mapMembers_mapMembers _ _).trans ?_
            refine congrArg db.mapMembers (funext fun row => ?_)
            exact (MemberRow.revised_cons time update updates row).symm

/-- What a batch that is carried out leaves: of the rows that it has created and updated and of the
others just those are missing that go with the deleted ones, and all stand in their sequence. -/
structure Completes (db : Database) (batch : Batch) (time : String) (after : Database) : Prop where
  applied : after.applied = db.applied
  roots : after.roots = db.roots
  members : ∃ stays : MemberRow → Bool,
    after.members = (db.revisedMembers batch time).filter stays ∧
    ∀ row ∈ db.revisedMembers batch time, stays row = true ↔
      ¬ Goes (db.revisedMembers batch time) (·.id ∈ batch.deletes.map Id.text) row
  /-- A row without an update is the same as before. -/
  others : ∀ row : MemberRow, row.id ∉ batch.updates.map (·.id.text) →
    row.revised batch.updates time = row

/-- What the statements of a batch come to, by the rules that it breaks. -/
theorem perform_batch_cases (batch : Batch) :
    (∃ fault, db.Breaks batch time fault ∧
        db.perform (batch.statements time) = .error fault) ∨
      (∀ fault, ¬ db.Breaks batch time fault) ∧
        ∃ after, db.perform (batch.statements time) = .ok after ∧
          db.Completes batch time after := by
  rw [Batch.statements, List.append_assoc]
  rcases db.perform_creates_cases batch.creates with ⟨fault, bars, failed⟩ | ⟨free, created⟩
  · exact .inl ⟨fault, .create bars, perform_append_error failed⟩
  rw [perform_append_ok created]
  rcases (db.storing batch.creates time).perform_updates_cases batch.updates with
    ⟨fault, strays, failed⟩ | ⟨known, updated⟩
  · exact .inl ⟨fault, .update strays, perform_append_error failed⟩
  rw [perform_append_ok updated]
  rcases @perform_deletes_cases ((db.storing batch.creates time).mapMembers
      (.revised batch.updates time)) batch.deletes with
    ⟨sinks, failed⟩ | ⟨shallow, stays, same, keeps⟩
  · exact .inl ⟨.tooDeep, .delete sinks, failed⟩
  refine .inr ⟨?_, _, same, rfl, rfl, ⟨stays, rfl, keeps⟩, fun _ => MemberRow.revised_eq_self time⟩
  rintro fault (bars | strays | sinks)
  · exact free fault bars
  · exact known fault strays
  · exact shallow sinks

/-- What a batch does to the tables, by the rules that it breaks. -/
theorem apply_cases (batch : Batch) (time : String) :
    (∃ fault, db.Breaks batch time fault ∧ db.apply batch time = (.error fault, db)) ∨
      (∀ fault, ¬ db.Breaks batch time fault) ∧
        ∃ after, db.apply batch time = (.ok (), after) ∧ db.Completes batch time after := by
  rcases db.perform_batch_cases batch with ⟨fault, breaks, failed⟩ | ⟨free, after, done, completes⟩
  · exact .inl ⟨fault, breaks, transact_eq_error failed⟩
  · exact .inr ⟨free, after, transact_eq_ok done, completes⟩

/-- The number of a root is set. -/
theorem updateRoot_cases (update : RootUpdate) :
    update.id.text ∉ db.roots.map RootRow.id ∧
        db.updateRoot update time = .error (.rootNotFound update.id) ∨
      update.id.text ∈ db.roots.map RootRow.id ∧
        db.updateRoot update time =
          .ok { db with roots := db.roots.map (·.receive update time) } := by
  rw [← hasRoot_iff]
  by_cases known : db.hasRoot update.id.text = true
  · exact .inr ⟨known, if_pos known⟩
  · exact .inl ⟨known, if_neg known⟩

/-- Roots are updated one after the other, unless one of them is not there. -/
theorem perform_rootUpdates_cases (updates : List RootUpdate) :
    (∃ update ∈ updates, update.id.text ∉ db.roots.map RootRow.id ∧
        db.perform (updates.map fun update db => db.updateRoot update time) =
          .error (.rootNotFound update.id)) ∨
      (∀ update ∈ updates, update.id.text ∈ db.roots.map RootRow.id) ∧
        db.perform (updates.map fun update db => db.updateRoot update time) =
          .ok { db with roots := db.roots.map (.revised updates time) } := by
  induction updates generalizing db with
  | nil =>
      refine .inr ⟨fun _ listed => absurd listed List.not_mem_nil, congrArg Except.ok ?_⟩
      exact congrArg (fun roots => { db with roots }) (List.map_id _).symm
  | cons update updates ih =>
      have ids : (db.roots.map (·.receive update time)).map RootRow.id =
          db.roots.map RootRow.id := by
        rw [List.map_map]
        exact List.map_congr_left fun row _ => row.id_receive update time
      rw [List.map_cons]
      rcases db.updateRoot_cases update with ⟨unknown, failed⟩ | ⟨here, done⟩
      · exact .inl ⟨update, .head _, unknown, perform_cons_error failed⟩
      rw [perform_cons_ok done]
      rcases @ih { db with roots := db.roots.map (·.receive update time) } with
        ⟨next, listed, absent, failed⟩ | ⟨known, later⟩
      · exact .inl ⟨next, .tail _ listed, ids ▸ absent, failed⟩
      · refine .inr ⟨List.forall_mem_cons.2 ⟨here, ids ▸ known⟩, later.trans ?_⟩
        refine congrArg (fun roots => Except.ok { db with roots })
          ((List.map_map ..).trans (List.map_congr_left fun row _ => ?_))
        rw [Function.comp_apply, RootRow.revised_cons]

/-- What a batch for roots does to the tables, by the roots that they lack. -/
theorem applyRoots_cases (batch : RootBatch) (time : String) :
    (∃ update ∈ batch.updates, update.id.text ∉ db.roots.map RootRow.id ∧
        db.applyRoots batch time = (.error (.rootNotFound update.id), db)) ∨
      (∀ update ∈ batch.updates, update.id.text ∈ db.roots.map RootRow.id) ∧
        db.applyRoots batch time =
          (.ok (), { db with roots := db.roots.map (.revised batch.updates time) }) := by
  rcases db.perform_rootUpdates_cases batch.updates with
    ⟨update, listed, absent, failed⟩ | ⟨known, done⟩
  · exact .inl ⟨update, listed, absent, transact_eq_error failed⟩
  · exact .inr ⟨known, transact_eq_ok done⟩

/-- Batches are all or nothing, also if a batch fails after some of its statements have been carried
out.  A batch that breaks a rule with any of its commands is answered by such a breach and leaves
the tables as they were; any other is carried out in full. -/
theorem transactions_whole (db : Database) (time : String) :
    (∀ batch : Batch,
      (∃ fault, db.Breaks batch time fault ∧
          (backend time).commit batch db = (.error (.storage fault.message), db)) ∨
        (∀ fault, ¬ db.Breaks batch time fault) ∧
          ∃ after, (backend time).commit batch db = (.ok (), after) ∧
            db.Completes batch time after) ∧
    ∀ batch : RootBatch,
      (∃ update ∈ batch.updates, update.id.text ∉ db.roots.map RootRow.id ∧
          (backend time).commitRoots batch db =
            (.error (.storage (Fault.rootNotFound update.id).message), db)) ∨
        (∀ update ∈ batch.updates, update.id.text ∈ db.roots.map RootRow.id) ∧
          (backend time).commitRoots batch db =
            (.ok (), { db with roots := db.roots.map (.revised batch.updates time) }) := by
  constructor
  · intro batch
    rcases db.apply_cases batch time with ⟨fault, breaks, failed⟩ | ⟨free, after, done, completes⟩
    · exact .inl ⟨fault, breaks, congrArg answer failed⟩
    · exact .inr ⟨free, after, congrArg answer done, completes⟩
  · intro batch
    rcases db.applyRoots_cases batch time with ⟨update, listed, absent, failed⟩ | ⟨known, done⟩
    · exact .inl ⟨update, listed, absent, congrArg answer failed⟩
    · exact .inr ⟨known, congrArg answer done⟩

/-- A note that names itself as its parent is created, although no such member was there before.  An
update without any field is carried out too: its row bears the time of the update from then on. -/
theorem ownParent_created_stamped :
    let root : RootRow := { Stamps.at "2024-05-01" with
      id := (Id.ofRandom 1).text, name := "notes", kind := "tree", order := 1 }
    let note : Row := {
      id := .ofRandom 2, parent := .ofNode (.ofRandom 1) (.ofRandom 2), name := "plan"
      kind := .interior, order := 1, path := Path.root.child "plan" }
    let db : Database := { roots := [root] }
    let created := (backend "2024-05-02").commit
      { container := note.parent, creates := [note] } db
    let update : Update := { id := note.id }
    let updated := (backend "2024-05-03").commit
      { container := note.parent, updates := [update] } created.2
    db.holds note.parent = false ∧ created.1 = .ok () ∧
      created.2.members = [.ofRow note (.at "2024-05-02")] ∧ update.isEmpty = true ∧
      updated.1 = .ok () ∧ updated.2.members = [.ofRow note ⟨"2024-05-02", "2024-05-03"⟩] := by
  decide +kernel

end Database

end Store

end Outline

import Outline.Proofs.Operations

/-!
# Plans as differences

The batches planned for a rearrangement are the difference of two tables: the rows of the
workspace before and after (`Outline.Workspace.Difference`), and likewise for the numbers of roots
(`Outline.Workspace.RootDifference`).  A plan looks only at the lists of one container.  That is
enough, since these account for every row that changes, and what they show besides is as it was.
-/

namespace Outline

/-- An update carries exactly the fields in which two rows differ, with the values of the second. -/
structure Update.Turns (update : Update) (old new : Row) : Prop where
  id : update.id = new.id
  order : ∀ order, update.order = some order ↔ old.order ≠ new.order ∧ order = new.order
  parent : ∀ parent, update.parent = some parent ↔ old.parent ≠ new.parent ∧ parent = new.parent
  path : ∀ path, update.path = some path ↔ old.path ≠ new.path ∧ path = new.path
  name : ∀ name, update.name = some name ↔ old.name ≠ new.name ∧ name = new.name

/-- Rows of one member differ in a field that updates can change. -/
def Row.Differs (old new : Row) : Prop :=
  old.order ≠ new.order ∨ old.parent ≠ new.parent ∨ old.path ≠ new.path ∨ old.name ≠ new.name

namespace Workspace

/-- Batches taken together are the difference of the rows of two workspaces. -/
structure Difference (w w' : Workspace) (batches : List Batch) : Prop where
  creates : (batches.flatMap Batch.creates).Perm (w'.rows.filter (·.id ∉ w.ids))
  deletes : (batches.flatMap Batch.deletes).Perm (w.ids.filter (· ∉ w'.ids))
  updates : ∀ update, update ∈ batches.flatMap Batch.updates ↔
    ∃ old ∈ w.rows, ∃ new ∈ w'.rows, old.id = new.id ∧ old.Differs new ∧ update.Turns old new
  /-- A member that stays keeps its kind, which no update could change. -/
  kinds : ∀ old ∈ w.rows, ∀ new ∈ w'.rows, old.id = new.id → old.kind = new.kind
  once : ((batches.flatMap Batch.creates).map Row.id ++
    (batches.flatMap Batch.updates).map Update.id ++ batches.flatMap Batch.deletes).Nodup

/-- The updates of roots are the difference of the numbers that roots have in two workspaces. -/
structure RootDifference (w w' : Workspace) (commands : List RootUpdate) : Prop where
  updates : ∀ update, update ∈ commands ↔ ∃ old ∈ w.roots, ∃ new ∈ w'.roots,
    old.id = new.id ∧ old.order ≠ new.order ∧ update = ⟨new.id, new.order⟩
  once : (commands.map RootUpdate.id).Nodup

end Workspace

namespace Row

theorem updateTo_turns (old new : Row) : (old.updateTo new).Turns old new where
  id := rfl
  order := by simp [updateTo, eq_comm]
  parent := by simp [updateTo, eq_comm]
  path := by simp [updateTo, eq_comm]
  name := by simp [updateTo, eq_comm]

theorem isEmpty_updateTo {old new : Row} :
    (old.updateTo new).isEmpty = false ↔ old.Differs new := by
  simp only [Update.isEmpty, updateTo, Differs]
  by_cases order : old.order = new.order <;> by_cases parent : old.parent = new.parent <;>
    by_cases path : old.path = new.path <;> by_cases name : old.name = new.name <;>
    simp [order, parent, path, name]

theorem eq_of_not_differs {old new : Row} (id : old.id = new.id) (kind : old.kind = new.kind)
    (alike : ¬ old.Differs new) : old = new := by
  cases old
  cases new
  simp only [Differs, not_or, ne_eq, not_not] at alike
  rw [Row.mk.injEq]
  exact ⟨id, alike.2.1, alike.2.2.2, kind, alike.1, alike.2.2.1⟩

theorem not_differs_self (row : Row) : ¬ row.Differs row := by
  simp [Differs]

end Row

/-- An update is determined by the rows that it leads from and to. -/
theorem Update.Turns.eq_updateTo {update : Update} {old new : Row} (turns : update.Turns old new) :
    update = old.updateTo new := by
  have other := old.updateTo_turns new
  obtain ⟨id, order, parent, path, name⟩ := update
  have fields : ∀ {α : Type} {x y : Option α}, (∀ a, x = some a ↔ y = some a) → x = y :=
    fun same => Option.ext same
  rw [Update.mk.injEq]
  refine ⟨turns.id, fields fun a => ?_, fields fun a => ?_, fields fun a => ?_, fields fun a => ?_⟩
  · exact (turns.order a).trans (other.order a).symm
  · exact (turns.parent a).trans (other.parent a).symm
  · exact (turns.path a).trans (other.path a).symm
  · exact (turns.name a).trans (other.name a).symm

/-- The update that brings the row of a table up to date, if there is such a row and it differs. -/
def Row.updateFrom? (table : List Row) (row : Row) : Option Update :=
  (rowOf? table row.id).bind fun old =>
    let update := old.updateTo row
    if update.isEmpty then none else some update

theorem Row.id_updateFrom? {table : List Row} {row : Row} {update : Update}
    (brought : row.updateFrom? table = some update) : update.id = row.id := by
  obtain ⟨old, -, brought⟩ := Option.bind_eq_some_iff.1 brought
  dsimp only at brought
  split at brought
  next => cases brought
  next => exact (congrArg Update.id (Option.some.inj brought)).symm

/-- What brings a row up to date, where the one before is known. -/
theorem Row.updateFrom?_of_rowOf? {table : List Row} {old new : Row}
    (known : rowOf? table old.id = some old) (same : new.id = old.id) : new.updateFrom? table =
      if (old.updateTo new).isEmpty then none else some (old.updateTo new) := by
  rw [updateFrom?, same, known]
  rfl

/-- A table serves a row of its own for each identifier that it lists. -/
theorem exists_rowOf?_eq_some {table : List Row} {id : Id} (listed : id ∈ table.map Row.id) :
    ∃ row ∈ table, row.id = id ∧ rowOf? table id = some row := by
  obtain ⟨row, inside, rfl⟩ := List.mem_map.1 listed
  obtain ⟨found, search⟩ := Option.isSome_iff_exists.1 (List.find?_isSome.2
    ⟨row, List.mem_reverse.2 inside, decide_eq_true rfl⟩ :
      (table.reverse.find? (·.id = row.id)).isSome)
  exact ⟨found, List.mem_reverse.1 (List.mem_of_find?_eq_some search),
    by simpa using List.find?_some search, search⟩

theorem rowOf?_isNone_iff {table : List Row} {id : Id} :
    (rowOf? table id).isNone = true ↔ id ∉ table.map Row.id := by
  rw [rowOf?, Option.isNone_iff_eq_none, List.find?_eq_none]
  simp

/-- What brings a row up to date, where all rows of the table that have its identifier are one. -/
theorem Row.updateFrom?_eq_some_iff {table : List Row} {new : Row} {update : Update}
    (alike : ∀ r ∈ table, ∀ s ∈ table, r.id = new.id → s.id = new.id → r = s) :
    new.updateFrom? table = some update ↔
      ∃ old ∈ table, old.id = new.id ∧ old.Differs new ∧ update = old.updateTo new := by
  rw [Row.updateFrom?, Option.bind_eq_some_iff]
  constructor
  · rintro ⟨old, found, brought⟩
    have same : old.id = new.id := by simpa using List.find?_some found
    refine ⟨old, List.mem_reverse.1 (List.mem_of_find?_eq_some found), same, ?_⟩
    dsimp only at brought
    split at brought
    next => cases brought
    next filled =>
      exact ⟨Row.isEmpty_updateTo.1 (Bool.eq_false_iff.2 filled), (Option.some.inj brought).symm⟩
  · rintro ⟨old, inside, same, differs, rfl⟩
    have known : new.id ∈ table.map Row.id := List.mem_map.2 ⟨old, inside, same⟩
    obtain ⟨found, listed, named, search⟩ := exists_rowOf?_eq_some known
    obtain rfl := alike found listed old inside named same
    have filled := Row.isEmpty_updateTo.2 differs
    refine ⟨found, search, ?_⟩
    simp only [filled]
    rfl

section

variable {table : List Row} (alike : ∀ r ∈ table, ∀ s ∈ table, r.id = s.id → r = s) {row : Row}
  (inside : row ∈ table)

include alike inside

/-- A table with one row for each identifier serves the rows that it lists. -/
theorem rowOf?_eq_some_of_mem : rowOf? table row.id = some row := by
  obtain ⟨found, listed, same, search⟩ := exists_rowOf?_eq_some (List.mem_map_of_mem inside)
  rw [search, alike found listed row inside same]

theorem Row.updateFrom?_eq_none_of_mem : row.updateFrom? table = none := by
  have empty : (row.updateTo row).isEmpty = true := by
    by_contra filled
    exact row.not_differs_self (Row.isEmpty_updateTo.1 (Bool.eq_false_iff.2 filled))
  rw [Row.updateFrom?_of_rowOf? (rowOf?_eq_some_of_mem alike inside) rfl]
  exact if_pos empty

end

/-- What is made of some items, by a label that they share with what is made of them. -/
theorem sublist_map_filterMap {α β γ : Type} {f : α → Option β} {g : β → γ} {h : α → γ}
    (same : ∀ x y, f x = some y → g y = h x) (xs : List α) :
    ((xs.filterMap f).map g).Sublist (xs.map h) := by
  induction xs with
  | nil => exact .slnil
  | cons x xs ih =>
      cases made : f x with
      | none =>
          rw [List.filterMap_cons_none made, List.map_cons]
          exact ih.cons _
      | some y =>
          rw [List.filterMap_cons_some made, List.map_cons, List.map_cons, same x y made]
          exact ih.cons_cons _

namespace Change

theorem creates_plan (change : Change) : change.plan.creates =
    change.rowsAfter.filter fun row => (rowOf? change.rowsBefore row.id).isNone := rfl

theorem updates_plan (change : Change) : change.plan.updates =
    change.rowsAfter.filterMap (Row.updateFrom? change.rowsBefore) := rfl

end Change

namespace Workspace

variable {w w' : Workspace}

/-- A part of the rows of a workspace serves the rows that it lists. -/
theorem Valid.rowOf?_eq_some (valid : w.Valid) {table : List Row}
    (known : ∀ row ∈ table, row ∈ w.rows)
    {row : Row} (inside : row ∈ table) : rowOf? table row.id = some row :=
  rowOf?_eq_some_of_mem (fun r inR s inS => valid.row_ext (known r inR) (known s inS)) inside

theorem rowOf?_eq_none {table : List Row} {id : Id} (absent : id ∉ table.map Row.id) :
    rowOf? table id = none := by
  refine List.find?_eq_none.2 fun row inside same => absent ?_
  exact List.mem_map.2 ⟨row, List.mem_reverse.1 inside, of_decide_eq_true same⟩

/-- A row that a part of the rows of the workspace lists needs no update from there. -/
theorem Valid.updateFrom?_eq_none (valid : w.Valid) {table : List Row}
    (known : ∀ row ∈ table, row ∈ w.rows) {row : Row} (inside : row ∈ table) :
    row.updateFrom? table = none :=
  Row.updateFrom?_eq_none_of_mem
    (fun r inR s inS => valid.row_ext (known r inR) (known s inS)) inside

theorem Valid.updateFrom?_eq_some_iff (valid : w.Valid) {new : Row} {update : Update} :
    new.updateFrom? w.rows = some update ↔
      ∃ old ∈ w.rows, old.id = new.id ∧ old.Differs new ∧ update = old.updateTo new :=
  Row.updateFrom?_eq_some_iff fun _ inR _ inS first second =>
    valid.row_ext inR inS (first.trans second.symm)

end Workspace

namespace Rearrangement.Accounts

variable {w w' : Workspace} {r : Rearrangement} {novel stale frame : List Row}
  (accounts : r.Accounts w w' novel stale frame) (valid : w.Valid)

include accounts valid

/-- For the rows that it lists, a change looks up the rows of the whole workspace. -/
theorem rowOf?_eq {change : Change} (inside : change ∈ r.changes) {row : Row}
    (listed : row ∈ change.rowsAfter) :
    rowOf? change.rowsBefore row.id = rowOf? w.rows row.id := by
  by_cases known : row.id ∈ w.ids
  · obtain ⟨old, here, same⟩ := List.mem_map.1 (accounts.listed change inside row listed known)
    rw [← same, valid.rowOf?_eq_some (accounts.known change inside) here,
      valid.rowOf?_eq_some (fun _ inside => inside) (accounts.known change inside old here)]
  · have absent : row.id ∉ w.rows.map Row.id := by rwa [w.map_id_rows]
    rw [Workspace.rowOf?_eq_none absent, Workspace.rowOf?_eq_none]
    intro here
    obtain ⟨old, here, same⟩ := List.mem_map.1 here
    exact absent (List.mem_map.2 ⟨old, accounts.known change inside old here, same⟩)

/-- All creations planned. -/
theorem creates_perm :
    (r.plans.flatMap Batch.creates).Perm (w'.rows.filter (·.id ∉ w.ids)) := by
  have each : r.plans.flatMap Batch.creates =
      (r.changes.flatMap Change.rowsAfter).filter (·.id ∉ w.ids) := by
    rw [plans, List.flatMap_map, List.filter_flatMap]
    apply List.flatMap_congr
    intro change inside
    rw [Change.creates_plan]
    apply List.filter_congr
    intro row listed
    rw [accounts.rowOf?_eq valid inside listed, Bool.eq_iff_iff, rowOf?_isNone_iff,
      w.map_id_rows, decide_eq_true_eq]
  have none : ∀ rows : List Row, (∀ row ∈ rows, row ∈ w.rows) →
      rows.filter (·.id ∉ w.ids) = [] := by
    intro rows known
    apply List.filter_eq_nil_iff.2
    intro row inside new
    exact of_decide_eq_true new (Workspace.id_mem_of_mem_rows (known row inside))
  rw [each]
  refine ((accounts.written.filter _).trans ?_).trans (accounts.after.filter _).symm
  rw [List.filter_append, List.filter_append, none stale accounts.stale, none frame accounts.frame]

/-- All updates planned. -/
theorem updates_perm :
    (r.plans.flatMap Batch.updates).Perm (w'.rows.filterMap (Row.updateFrom? w.rows)) := by
  have each : r.plans.flatMap Batch.updates =
      (r.changes.flatMap Change.rowsAfter).filterMap (Row.updateFrom? w.rows) := by
    rw [plans, List.flatMap_map, List.filterMap_flatMap]
    apply List.flatMap_congr
    intro change inside
    rw [Change.updates_plan]
    apply List.filterMap_congr
    intro row listed
    rw [Row.updateFrom?, accounts.rowOf?_eq valid inside listed]
    rfl
  have none : ∀ rows : List Row, (∀ row ∈ rows, row ∈ w.rows) →
      rows.filterMap (Row.updateFrom? w.rows) = [] := fun rows known =>
    List.filterMap_eq_nil_iff.2 fun row inside =>
      valid.updateFrom?_eq_none (fun _ inside => inside) (known row inside)
  rw [each]
  refine ((accounts.written.filterMap _).trans ?_).trans (accounts.after.filterMap _).symm
  rw [List.filterMap_append, List.filterMap_append, none stale accounts.stale,
    none frame accounts.frame]

theorem kind_eq {old new : Row} (inside : old ∈ w.rows) (listed : new ∈ w'.rows)
    (same : old.id = new.id) : old.kind = new.kind := by
  rcases List.mem_append.1 (accounts.after.mem_iff.1 listed) with changed | stays
  · have known : new.id ∈ w.ids := by
      rw [← w.map_id_rows, ← same]
      exact List.mem_map_of_mem inside
    obtain ⟨row, here, id, kind⟩ := accounts.kinds new changed known
    rw [valid.row_ext inside here (same.trans id.symm), kind]
  · rw [valid.row_ext inside (accounts.frame new stays) same]

end Rearrangement.Accounts

namespace Workspace

variable {w w' : Workspace} {r : Rearrangement}

/-- The plans of a rearrangement are the difference of the rows before and after. -/
theorem Outcome.difference (outcome : w.Outcome r w') (valid : w.Valid) :
    w.Difference w' r.plans := by
  obtain ⟨novel, stale, frame, accounts⟩ := outcome.accounts
  have creates := accounts.creates_perm valid
  have brings := accounts.updates_perm valid
  have deletes : (r.plans.flatMap Batch.deletes).Perm (w.ids.filter (· ∉ w'.ids)) := by
    rw [Rearrangement.plans, List.flatMap_map]
    exact accounts.deleted
  have updates : ∀ update, update ∈ r.plans.flatMap Batch.updates ↔ ∃ old ∈ w.rows,
      ∃ new ∈ w'.rows, old.id = new.id ∧ old.Differs new ∧ update.Turns old new := by
    intro update
    rw [brings.mem_iff, List.mem_filterMap]
    constructor
    · rintro ⟨new, listed, brought⟩
      obtain ⟨old, inside, same, differs, rfl⟩ := valid.updateFrom?_eq_some_iff.1 brought
      exact ⟨old, inside, new, listed, same, differs, old.updateTo_turns new⟩
    · rintro ⟨old, inside, new, listed, same, differs, turns⟩
      refine ⟨new, listed, valid.updateFrom?_eq_some_iff.2 ?_⟩
      exact ⟨old, inside, same, differs, turns.eq_updateTo⟩
  refine ⟨creates, deletes, updates,
    fun old inside new listed same => accounts.kind_eq valid inside listed same, ?_⟩
  have created : ∀ id ∈ (r.plans.flatMap Batch.creates).map Row.id, id ∉ w.ids := by
    intro id inside
    obtain ⟨row, listed, rfl⟩ := List.mem_map.1 inside
    exact of_decide_eq_true (List.mem_filter.1 (creates.mem_iff.1 listed)).2
  have updated : ∀ id ∈ (r.plans.flatMap Batch.updates).map Update.id,
      id ∈ w.ids ∧ id ∈ w'.ids := by
    intro id inside
    obtain ⟨update, listed, rfl⟩ := List.mem_map.1 inside
    obtain ⟨old, here, new, there, same, -, turns⟩ := (updates update).1 listed
    rw [turns.id]
    exact ⟨same ▸ id_mem_of_mem_rows here, id_mem_of_mem_rows there⟩
  have deleted : ∀ id ∈ r.plans.flatMap Batch.deletes, id ∈ w.ids ∧ id ∉ w'.ids := by
    intro id inside
    obtain ⟨known, gone⟩ := List.mem_filter.1 (deletes.mem_iff.1 inside)
    exact ⟨known, of_decide_eq_true gone⟩
  have distinct := outcome.valid.nodup_map_id_rows
  refine List.nodup_append.2 ⟨List.nodup_append.2 ⟨?_, ?_, ?_⟩, ?_, ?_⟩
  · exact (creates.map Row.id).nodup_iff.2 (distinct.sublist (List.filter_sublist.map _))
  · refine (brings.map Update.id).nodup_iff.2 (distinct.sublist ?_)
    exact sublist_map_filterMap (fun _ _ => Row.id_updateFrom?) _
  · rintro id new _ known rfl
    exact created id new (updated id known).1
  · exact deletes.nodup_iff.2 (valid.members_distinct.filter _)
  · rintro id inside _ gone rfl
    rcases List.mem_append.1 inside with new | known
    · exact created id new (deleted id gone).1
    · exact (deleted id gone).2 (updated id known).2

/-- The plan of the list of roots is the difference of the numbers before and after. -/
theorem Outcome.rootDifference (outcome : w.Outcome r w') (valid : w.Valid) :
    w.RootDifference w' (r.roots.elim [] fun roots => roots.plan.updates) := by
  cases changed : r.roots with
  | none =>
      refine ⟨fun update => ⟨fun none => absurd none List.not_mem_nil, ?_⟩, List.nodup_nil⟩
      rintro ⟨old, inside, new, listed, same, differs, -⟩
      have shallow : new.shallow ∈ w.roots.map Root.shallow :=
        outcome.same_roots changed ▸ List.mem_map_of_mem listed
      obtain ⟨root, here, fields⟩ := List.mem_map.1 shallow
      have id : root.id = old.id := (congrArg Root.id fields).trans same.symm
      obtain rfl := List.inj_on_of_nodup_map valid.roots_distinct here inside id
      exact absurd (congrArg Root.order fields) differs
  | some roots =>
      obtain ⟨before, after⟩ := outcome.moved_roots roots changed
      have ids : (roots.before.reverse.map Root.id).Nodup := by
        rw [List.map_reverse, List.nodup_reverse, before, List.map_map]
        exact valid.roots_distinct
      have lookup : ∀ old ∈ w.roots, (roots.before.reverse.find? (·.id = old.id)).map Root.order =
          some old.order := by
        intro old inside
        have listed : old.shallow ∈ roots.before.reverse := by
          rw [List.mem_reverse, before]
          exact List.mem_map_of_mem inside
        have found : roots.before.reverse.find? (·.id = old.id) = some old.shallow :=
          Ordered.find?_id_eq_some (α := Root) ids listed
        rw [found]
        rfl
      constructor
      · intro update
        simp only [Option.elim_some, RootChange.plan, after, List.mem_map, List.mem_filter,
          decide_eq_true_eq]
        constructor
        · rintro ⟨_, ⟨⟨new, listed, rfl⟩, differs⟩, rfl⟩
          obtain ⟨old, inside, same⟩ := List.mem_map.1
            (outcome.root_ids.mem_iff.1 (List.mem_map_of_mem listed))
          refine ⟨old, inside, new, listed, same, fun equal => differs ?_, rfl⟩
          change (roots.before.reverse.find? (·.id = new.id)).map Root.order = some new.order
          rw [← same, lookup old inside, equal]
        · rintro ⟨old, inside, new, listed, same, differs, rfl⟩
          refine ⟨new.shallow, ⟨⟨new, listed, rfl⟩, fun equal => differs ?_⟩, rfl⟩
          change (roots.before.reverse.find? (·.id = new.id)).map Root.order =
            some new.order at equal
          rw [← same, lookup old inside] at equal
          exact Option.some.inj equal
      · have distinct : (roots.after.map Root.id).Nodup := by
          rw [after, List.map_map]
          exact outcome.valid.roots_distinct
        rw [Option.elim_some, RootChange.plan, List.map_map]
        exact distinct.sublist (List.filter_sublist.map Root.id)

end Workspace

namespace Rearrangement

variable {r : Rearrangement} {w w' : Workspace}

/-- Batches that do nothing add no commands. -/
theorem flatMap_batches {α : Type} (commands : Batch → List α)
    (none : ∀ batch, batch.isEmpty = true → commands batch = []) :
    r.batches.flatMap commands = r.plans.flatMap commands := by
  unfold batches
  induction r.plans with
  | nil => rfl
  | cons batch rest ih =>
      by_cases empty : batch.isEmpty = true
      · rw [List.filter_cons_of_neg (by simp [empty]), List.flatMap_cons, none batch empty, ih]
        rfl
      · rw [List.filter_cons_of_pos (by simp [empty]), List.flatMap_cons, List.flatMap_cons, ih]

theorem difference_batches (difference : w.Difference w' r.plans) : w.Difference w' r.batches := by
  have empty : ∀ batch : Batch, batch.isEmpty = true →
      batch.creates = [] ∧ batch.updates = [] ∧ batch.deletes = [] := by
    intro batch empty
    simpa [Batch.isEmpty, and_assoc] using empty
  have creates := r.flatMap_batches Batch.creates fun batch none => (empty batch none).1
  have updates := r.flatMap_batches Batch.updates fun batch none => (empty batch none).2.1
  have deletes := r.flatMap_batches Batch.deletes fun batch none => (empty batch none).2.2
  refine ⟨?_, ?_, ?_, difference.kinds, ?_⟩
  · exact creates ▸ difference.creates
  · exact deletes ▸ difference.deletes
  · exact updates ▸ difference.updates
  · rw [creates, updates, deletes]
    exact difference.once

end Rearrangement

end Outline

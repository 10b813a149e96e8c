import Outline.Row

/-!
# Batches

The commands that bring a store up to date with one container, or with the list of roots.
-/

namespace Outline

/-- A partial change of one row: only the fields that are present change. -/
structure Update where
  id : Id
  order : Option Nat := none
  /-- The new container, with its root. -/
  parent : Option Container := none
  path : Option Path := none
  name : Option String := none
  deriving DecidableEq, Inhabited

/-- Whether the update changes nothing. -/
def Update.isEmpty (update : Update) : Bool :=
  update.order.isNone && update.parent.isNone && update.path.isNone && update.name.isNone

/-- The row with the fields of the update. -/
def Row.updated (row : Row) (update : Update) : Row :=
  { row with
    order := update.order.getD row.order
    parent := update.parent.getD row.parent
    path := update.path.getD row.path
    name := update.name.getD row.name }

/-- The update that leads from one row to another of the same member and kind. -/
def Row.updateTo (before after : Row) : Update where
  id := after.id
  order := if before.order = after.order then none else some after.order
  parent := if before.parent = after.parent then none else some after.parent
  path := if before.path = after.path then none else some after.path
  name := if before.name = after.name then none else some after.name

theorem Row.updated_updateTo {before after : Row} (id : before.id = after.id)
    (kind : before.kind = after.kind) : before.updated (before.updateTo after) = after := by
  cases before
  cases after
  simp only at id kind
  subst id kind
  simp only [updated, updateTo]
  congr 1 <;> split <;> simp_all

/-- All that one container needs, done as a unit: creations, then updates, then deletions. -/
structure Batch where
  container : Container
  creates : List Row := []
  updates : List Update := []
  /-- The members to delete, each with all below it. -/
  deletes : List Id := []
  deriving DecidableEq, Inhabited

namespace Batch

/-- Whether there is nothing to do. -/
def isEmpty (batch : Batch) : Bool :=
  batch.creates.isEmpty && batch.updates.isEmpty && batch.deletes.isEmpty

/-- The number of commands. -/
def size (batch : Batch) : Nat :=
  batch.creates.length + batch.updates.length + batch.deletes.length

/-- The first update of a member. -/
def update? (batch : Batch) (id : Id) : Option Update :=
  batch.updates.find? (·.id = id)

theorem isEmpty_iff_size {batch : Batch} : batch.isEmpty = true ↔ batch.size = 0 := by
  simp [isEmpty, size, List.length_eq_zero_iff, and_assoc]

end Batch

/-- The new number of a root. -/
structure RootUpdate where
  id : Id
  order : Nat
  deriving DecidableEq, Inhabited

/-- The new numbers of roots, set as a unit. -/
structure RootBatch where
  updates : List RootUpdate := []
  deriving DecidableEq, Inhabited

namespace RootBatch

/-- Whether there is nothing to do. -/
def isEmpty (batch : RootBatch) : Bool :=
  batch.updates.isEmpty

/-- The number of commands. -/
def size (batch : RootBatch) : Nat :=
  batch.updates.length

/-- The first update of a root. -/
def update? (batch : RootBatch) (id : Id) : Option RootUpdate :=
  batch.updates.find? (·.id = id)

end RootBatch

end Outline

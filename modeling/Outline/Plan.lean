import Outline.Batch
import Outline.Rearrangement

/-!
# Plans

The batch for a change is the difference of two tables: the rows known before, and the rows after.
A member without a row before is created, one whose row differs is updated in the fields that
differ.
-/

namespace Outline

namespace Change

/-- The rows known before: of the list as it was, and of each arrival where it was. -/
def rowsBefore (change : Change) : List Row :=
  Forest.rows change.before change.container ++
    change.arrivals.flatMap fun arrival => arrival.member.rows arrival.source

/-- The rows of the list as it becomes. -/
def rowsAfter (change : Change) : List Row :=
  Forest.rows change.after change.container

/-- The batch that turns the rows before into the rows after. -/
def plan (change : Change) : Batch where
  container := change.container
  creates := change.rowsAfter.filter fun row => (rowOf? change.rowsBefore row.id).isNone
  updates := change.rowsAfter.filterMap fun row =>
    (rowOf? change.rowsBefore row.id).bind fun old =>
      let update := old.updateTo row
      if update.isEmpty then none else some update
  deletes := change.deleted

end Change

/-- The new number of every root that does not keep its own. -/
def RootChange.plan (change : RootChange) : RootBatch where
  updates := (change.after.filter fun root =>
      ((change.before.reverse.find? (·.id = root.id)).map (·.order)) ≠ some root.order).map
    fun root => { id := root.id, order := root.order }

namespace Rearrangement

/-- The batch of each change, empty ones included. -/
def plans (r : Rearrangement) : List Batch :=
  r.changes.map Change.plan

/-- The batches that have something to do. -/
def batches (r : Rearrangement) : List Batch :=
  r.plans.filter fun batch => !batch.isEmpty

/-- The batch of the list of roots, if it has something to do. -/
def rootBatch? (r : Rearrangement) : Option RootBatch :=
  (r.roots.map RootChange.plan).filter fun batch => !batch.isEmpty

end Rearrangement

end Outline

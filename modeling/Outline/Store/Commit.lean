import Outline.Reconcile
import Outline.Store.Connection
import Outline.Store.Load

/-!
# Committing to the tables

A batch is carried out in a transaction of its own.  The tables as a backend answer every fault as a
storage fault.
-/

namespace Outline

/-- The statements of an update: its fields are set before its row is moved. -/
def Update.statements (update : Update) (time : String) : List Store.Statement :=
  (·.setMember update time) ::
    update.parent.toList.map fun parent db => db.moveMember update.id parent

/-- The statements of a batch: creations, then updates, then deletions. -/
def Batch.statements (batch : Batch) (time : String) : List Store.Statement :=
  batch.creates.map (fun row db => db.insertMember row time) ++
    batch.updates.flatMap (·.statements time) ++
    batch.deletes.map fun id db => db.deleteMember id.text

/-- The statements of a batch for roots. -/
def RootBatch.statements (batch : RootBatch) (time : String) : List Store.Statement :=
  batch.updates.map fun update db => db.updateRoot update time

namespace Store.Database

variable (db : Database)

/-- Carries out statements in a transaction of their own. -/
def transact (statements : List Statement) : Except Fault Unit × Database :=
  let (answer, connection) := Connection.transact { committed := db } statements
  (answer, connection.committed)

/-- Carries out a batch. -/
def apply (batch : Batch) (time : String) : Except Fault Unit × Database :=
  db.transact (batch.statements time)

/-- Sets the numbers of roots. -/
def applyRoots (batch : RootBatch) (time : String) : Except Fault Unit × Database :=
  db.transact (batch.statements time)

/-- The number of a root that is created next: one more than the greatest, or one if there is
none. -/
def nextRootOrder : Int :=
  match db.roots.map (·.order) with
  | [] => 1
  | order :: orders => orders.foldl max order + 1

/-- Creates a root as the last one. -/
def createRoot (id : Id) (name : String) (shape : Shape) (time : String) :
    Except Fault (Root × Database) := do
  let order ← readOrder 0 db.nextRootOrder
  if db.hasRoot id.text then
    .error (.broken (.uniqueId "roots"))
  else
    let row := { Stamps.at time with id := id.text, name, kind := shape.text, order }
    return ({ Root.fresh id name shape with order }, { db with roots := db.roots ++ [row] })

/-- What became of a transaction, as a backend answers it. -/
def answer (done : Except Fault Unit × Database) : Except CommitFault Unit × Database :=
  (done.1.mapError fun fault => .storage fault.message, done.2)

/-- The tables as a backend, at some time. -/
def backend (time : String) : Backend Database where
  commit batch db := answer (db.apply batch time)
  commitRoots batch db := answer (db.applyRoots batch time)

/-- A reconciler of the tables with a workspace that is kept beside them, at some time. -/
def reconciler (time : String) : Reconciler Database Workspace where
  backend := backend time
  cache := .ofWorkspace

end Store.Database

end Outline

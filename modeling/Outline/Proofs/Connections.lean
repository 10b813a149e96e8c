import Mathlib.Data.List.Basic
import Outline.Store.Commit

/-!
# Transactions on a connection

Statements are carried out on the open transaction, one after the other, and what is committed stays
as it is until the transaction ends.  So a transaction is all or nothing
(`Outline.Store.Connection.transact_cases`): it commits what its statements come to one after the
other, or, whatever was done before one of them failed, nothing.
-/

namespace Outline.Store

namespace Database

/-- What statements make of the tables one after the other, without a transaction. -/
def perform (db : Database) (statements : List Statement) : Except Fault Database :=
  statements.foldlM (fun db statement => statement db) db

variable (db : Database) {after : Database} {fault : Fault}

theorem perform_nil : db.perform [] = .ok db := rfl

theorem perform_cons (statement : Statement) (statements : List Statement) :
    db.perform (statement :: statements) = statement db >>= (·.perform statements) :=
  List.foldlM_cons ..

theorem perform_append (first later : List Statement) :
    db.perform (first ++ later) = db.perform first >>= (·.perform later) :=
  List.foldlM_append ..

variable {db}

theorem perform_cons_ok {statement : Statement} {statements : List Statement}
    (done : statement db = .ok after) :
    db.perform (statement :: statements) = after.perform statements := by
  rw [perform_cons, done]
  rfl

theorem perform_cons_error {statement : Statement} {statements : List Statement}
    (failed : statement db = .error fault) :
    db.perform (statement :: statements) = .error fault := by
  rw [perform_cons, failed]
  rfl

theorem perform_append_ok {first later : List Statement} (done : db.perform first = .ok after) :
    db.perform (first ++ later) = after.perform later := by
  rw [perform_append, done]
  rfl

theorem perform_append_error {first later : List Statement}
    (failed : db.perform first = .error fault) : db.perform (first ++ later) = .error fault := by
  rw [perform_append, failed]
  rfl

end Database

/-- Statements fail with the fault of the first that does, after those before it have been carried
out. -/
structure Stops (db : Database) (statements : List Statement) (fault : Fault) (reached : Database) :
    Prop where
  split : ∃ done failing rest, statements = done ++ failing :: rest ∧
    db.perform done = .ok reached ∧ failing reached = .error fault

theorem Stops.perform_eq {db reached : Database} {statements : List Statement} {fault : Fault}
    (stops : Stops db statements fault reached) : db.perform statements = .error fault := by
  obtain ⟨done, failing, rest, rfl, before, failed⟩ := stops.split
  rw [Database.perform_append_ok before, Database.perform_cons_error failed]

namespace Connection

variable {c : Connection} {db : Database}

theorem execute_eq_ok {statement : Statement} {after : Database} (pending : c.pending = some db)
    (done : statement db = .ok after) :
    c.execute statement = (.ok (), { c with pending := some after }) := by
  rw [execute, visible, pending, Option.getD_some, done]

theorem execute_eq_error {statement : Statement} {fault : Fault} (pending : c.pending = some db)
    (failed : statement db = .error fault) : c.execute statement = (.error fault, c) := by
  rw [execute, visible, pending, Option.getD_some, failed]

/-- Statements that are run in an open transaction are all carried out, or those before the first
that fails are; either way in the transaction only. -/
theorem run_cases (pending : c.pending = some db) (statements : List Statement) :
    (∃ after, db.perform statements = .ok after ∧
      run statements c = (.ok (), { c with pending := some after })) ∨
    ∃ fault reached, Stops db statements fault reached ∧
      run statements c = (.error fault, { c with pending := some reached }) := by
  induction statements generalizing c db with
  | nil =>
      refine .inl ⟨db, rfl, ?_⟩
      rw [run, ← pending]
  | cons statement statements ih =>
      rw [run]
      cases done : statement db with
      | error fault =>
          refine .inr ⟨fault, db, ⟨[], statement, statements, rfl, rfl, done⟩, ?_⟩
          rw [execute_eq_error pending done, ← pending]
      | ok between =>
          rw [execute_eq_ok pending done]
          rcases @ih { c with pending := some between } between rfl with
            ⟨after, later, ran⟩ | ⟨fault, reached, stops, ran⟩
          · exact .inl ⟨after, (Database.perform_cons_ok done).trans later, ran⟩
          · obtain ⟨first, failing, rest, rfl, before, failed⟩ := stops.split
            refine .inr ⟨fault, reached, ⟨statement :: first, failing, rest, rfl, ?_, failed⟩, ran⟩
            exact (Database.perform_cons_ok done).trans before

/-- A transaction is all or nothing.  Either its statements are carried out one after the other and
the outcome is committed, or one of them fails and what is committed stays as it was, whatever was
done before.  No transaction is open afterwards. -/
theorem transact_cases (c : Connection) (statements : List Statement) :
    (∃ after, c.committed.perform statements = .ok after ∧
      c.transact statements = (.ok (), { committed := after })) ∨
    ∃ fault reached, Stops c.committed statements fault reached ∧
      c.transact statements = (.error fault, { committed := c.committed }) := by
  rcases run_cases (c := c.begin) rfl statements with
    ⟨after, done, ran⟩ | ⟨fault, reached, stops, ran⟩
  · exact .inl ⟨after, done, by rw [transact, ran]; rfl⟩
  · exact .inr ⟨fault, reached, stops, by rw [transact, ran]; rfl⟩

end Connection

namespace Database

variable {db : Database} {statements : List Statement}

theorem transact_eq_ok {after : Database} (done : db.perform statements = .ok after) :
    db.transact statements = (.ok (), after) := by
  rcases Connection.transact_cases { committed := db } statements with
    ⟨_, done', ran⟩ | ⟨fault, reached, stops, -⟩
  · obtain rfl := Except.ok.inj (done.symm.trans done')
    rw [transact, ran]
  · cases done.symm.trans stops.perform_eq

theorem transact_eq_error {fault : Fault} (failed : db.perform statements = .error fault) :
    db.transact statements = (.error fault, db) := by
  rcases Connection.transact_cases { committed := db } statements with
    ⟨_, done, -⟩ | ⟨_, reached, stops, ran⟩
  · cases failed.symm.trans done
  · obtain rfl := Except.error.inj (failed.symm.trans stops.perform_eq)
    rw [transact, ran]

end Database

end Outline.Store

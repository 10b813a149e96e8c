import Outline.Store.Statement

/-!
# Connections

A connection to the tables carries out statements in transactions.  What the statements of an open
transaction make of the tables is kept apart from what is committed until the transaction ends.
-/

namespace Outline.Store

/-- A connection: the tables as they are committed, and as the open transaction has them, if one is
open. -/
structure Connection where
  committed : Database
  pending : Option Database := none

namespace Connection

variable (c : Connection)

/-- The tables that a statement finds. -/
def visible : Database :=
  c.pending.getD c.committed

/-- Opens a transaction. -/
def begin : Connection :=
  { c with pending := some c.committed }

/-- Carries out a statement in the open transaction.  A statement that fails changes nothing and
leaves the transaction open, with what was done in it before. -/
def execute (statement : Statement) : Except Fault Unit × Connection :=
  match statement c.visible with
  | .ok db => (.ok (), { c with pending := some db })
  | .error fault => (.error fault, c)

/-- Carries out statements in the open transaction, up to the first that fails. -/
def run : List Statement → Connection → Except Fault Unit × Connection
  | [], c => (.ok (), c)
  | statement :: rest, c =>
    match c.execute statement with
    | (.ok (), c) => run rest c
    | (.error fault, c) => (.error fault, c)

/-- Ends the open transaction and keeps what was done in it. -/
def commit : Connection where
  committed := c.visible

/-- Ends the open transaction and gives up what was done in it. -/
def rollback : Connection where
  committed := c.committed

/-- Carries out statements in a transaction of their own, which ends with the first that fails. -/
def transact (statements : List Statement) : Except Fault Unit × Connection :=
  match run statements c.begin with
  | (.ok (), c) => (.ok (), c.commit)
  | (.error fault, c) => (.error fault, c.rollback)

end Connection

end Outline.Store

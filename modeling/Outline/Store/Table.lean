import Outline.Row

/-!
# Stored tables

Roots and members as a store keeps them: columns of text and whole numbers, rows in the order in
which they were inserted.  Whoever writes to the tables directly may leave anything in them.
-/

namespace Outline.Store

/-- When a row was inserted, and when its columns were set last. -/
structure Stamps where
  createdAt : String
  updatedAt : String
  deriving DecidableEq

/-- The stamps of a row that is inserted at some time. -/
def Stamps.at (time : String) : Stamps where
  createdAt := time
  updatedAt := time

/-- A stored root. -/
structure RootRow extends Stamps where
  id : String
  name : String
  kind : String
  order : Int
  deriving DecidableEq

/-- A stored member.  Its path is kept as JSON text. -/
structure MemberRow extends Stamps where
  id : String
  rootId : String
  /-- The member that lists this one; `none` if the root does. -/
  parentId : Option String
  name : String
  kind : String
  order : Int
  path : String
  deriving DecidableEq

/-- A step in the history of the tables' layout. -/
inductive Migration where
  /-- Roots and members. -/
  | initial
  /-- Numbers for roots. -/
  | rootOrder
  deriving DecidableEq

/-- The tables, and the migrations that they have been through. -/
structure Database where
  applied : List Migration := []
  roots : List RootRow := []
  members : List MemberRow := []
  deriving DecidableEq

end Outline.Store

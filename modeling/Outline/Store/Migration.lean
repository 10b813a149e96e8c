import Outline.Store.Table

/-!
# Migrations

Tables are brought to the present layout step by step.  The step that gives roots their numbers
counts them by time of creation, those of one time as inserted.
-/

namespace Outline.Store

namespace Migration

/-- Every migration, in order. -/
def all : List Migration :=
  [.initial, .rootOrder]

/-- How many of the roots were created no later than the one at `index`, itself included. -/
def rank (roots : List RootRow) (index : Nat) (row : RootRow) : Nat :=
  (roots.zipIdx.filter fun (other, place) =>
    other.createdAt < row.createdAt || (other.createdAt = row.createdAt && place ≤ index)).length

/-- The tables in the layout that the migration leads to. -/
def run (db : Database) : Migration → Database
  | .initial => db
  | .rootOrder =>
    { db with roots := db.roots.mapIdx fun index row =>
        { row with order := rank db.roots index row } }

end Migration

namespace Database

/-- Runs a migration unless the tables have been through it. -/
def advance (db : Database) (migration : Migration) : Database :=
  if migration ∈ db.applied then
    db
  else
    { migration.run db with applied := db.applied ++ [migration] }

/-- The tables in the present layout. -/
def migrate (db : Database) : Database :=
  Migration.all.foldl advance db

/-- Tables in the present layout without any row. -/
def fresh : Database :=
  migrate {}

end Database

end Outline.Store

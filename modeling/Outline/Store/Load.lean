import Outline.Encoding.Workspace
import Outline.Json.Reader
import Outline.StableSort
import Outline.Store.Fault
import Outline.Store.Table

/-!
# Loading a workspace

The rows of the tables become a workspace.  Siblings stand in the order of their numbers, those
with equal numbers as inserted.  A member whose container is not reached from a root is left out,
and no row is placed twice, whatever the rows refer to.
-/

namespace Outline.Store

/-- Reads an order number from a column. -/
def readOrder (column : Nat) (value : Int) : Except Fault Nat :=
  if 0 ≤ value ∧ value < orderLimit then .ok value.toNat else .error (.outOfRange value column)

/-- Reads an identifier. -/
def readId (text : String) : Except Fault Id :=
  match Id.ofText? text with
  | some id => .ok id
  | none => .error (.invalidId text)

/-- Whether a root comes no later than another: by number, then by time of creation. -/
def RootRow.precedes (a b : RootRow) : Bool :=
  a.order < b.order || (a.order = b.order && a.createdAt ≤ b.createdAt)

/-- Reads a root, whose number has been read already. -/
def RootRow.read (row : RootRow) (order : Nat) : Except Fault Root := do
  let id ← readId row.id
  match Shape.ofText? row.kind with
  | some shape => return { id, name := row.name, shape, order, members := [] }
  | none => .error (.unknownShape row.kind)

/-- The roots without their members, in display order. -/
def Database.loadRoots (db : Database) : Except Fault (List Root) := do
  let rows := stableSort RootRow.precedes db.roots
  let orders ← rows.mapM fun row => readOrder 3 row.order
  (rows.zip orders).mapM fun (row, order) => row.read order

/-- Reads the path kept in a row. -/
def MemberRow.readPath (row : MemberRow) : Except Fault Path :=
  match (Json.ofText? row.path).bind Path.ofJson? with
  | some path => .ok path
  | none => .error (.invalidPath row.id)

/-- Reads a member without its children, and the container that it belongs to.  Its number has
been read already. -/
def MemberRow.read (row : MemberRow) (order : Nat) : Except Fault (Container × Member) := do
  let root ← readId row.rootId
  let node ← row.parentId.mapM readId
  let id ← readId row.id
  match Kind.ofText? row.kind with
  | some kind =>
    let path ← row.readPath
    return ({ root, node }, { id, name := row.name, order, kind, path, children := [] })
  | none => .error (.unknownMemberKind row.kind)

/-- Members that have not been placed yet, each with the container that it belongs to. -/
abbrev Pool := List (Container × Member)

/-- All members of the tables, in the order of their numbers. -/
def Database.loadPool (db : Database) : Except Fault Pool := do
  let rows := stableSort (fun a b => a.order ≤ b.order) db.members
  let orders ← rows.mapM fun row => readOrder 5 row.order
  (rows.zip orders).mapM fun (row, order) => row.read order

/-- Does `step` for each item in turn, passing the pool on. -/
def threadPool {α β : Type} (step : α → Pool → β × Pool) : List α → Pool → List β × Pool
  | [], pool => ([], pool)
  | x :: xs, pool =>
    let (y, pool) := step x pool
    let (ys, pool) := threadPool step xs pool
    (y :: ys, pool)

/-- Takes the members of a container out of the pool, and the members below each of them.  Every
level takes at least one member out of the pool, so `levels` need not exceed its size. -/
def Pool.attach : (levels : Nat) → Container → Pool → Forest × Pool
  | 0, _, pool => ([], pool)
  | levels + 1, container, pool =>
    let here := (pool.filter (·.1 = container)).map (·.2)
    threadPool
      (fun m pool =>
        let (children, pool) := attach levels (.ofNode container.root m.id) pool
        ({ m with children }, pool))
      here (pool.filter (·.1 ≠ container))

/-- The workspace that the tables hold. -/
def Database.load (db : Database) : Except Fault Workspace := do
  let roots ← db.loadRoots
  let pool ← db.loadPool
  let place := fun (root : Root) (pool : Pool) =>
    let (members, pool) := Pool.attach (pool.length + 1) root.container pool
    (root.withMembers members, pool)
  return { roots := (threadPool place roots pool).1 }

end Outline.Store

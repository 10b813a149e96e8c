import Outline.Encoding.Batch
import Outline.Json.Writer
import Outline.Store.Fault
import Outline.Store.Table

/-!
# Statements

The single changes to the tables, each with the rules it must keep: identifiers are unique within a
table, and a member refers to a root and, if it has a parent, to a member that are there.  What a
statement inserts or sets is stamped with the time of the batch that it belongs to.
-/

namespace Outline.Store

/-- The path as it is kept in a row. -/
def pathText (path : Path) : String :=
  path.toJson.text

/-- A row as it is stored. -/
def MemberRow.ofRow (row : Row) (stamps : Stamps) : MemberRow where
  toStamps := stamps
  id := row.id.text
  rootId := row.parent.root.text
  parentId := row.parent.node.map Id.text
  name := row.name
  kind := row.kind.text
  order := row.order
  path := pathText row.path

/-- The stored row with the fields of an update, its container apart.  The row is stamped even if
the update carries none of them. -/
def MemberRow.set (row : MemberRow) (update : Update) (time : String) : MemberRow :=
  { row with
    order := (update.order.map Int.ofNat).getD row.order
    name := update.name.getD row.name
    path := (update.path.map pathText).getD row.path
    updatedAt := time }

/-- The stored row in a container. -/
def MemberRow.moved (row : MemberRow) (parent : Container) : MemberRow :=
  { row with rootId := parent.root.text, parentId := parent.node.map Id.text }

/-- Whether the row names one of the given rows as its parent. -/
def MemberRow.isBelow (gone : List String) (row : MemberRow) : Bool :=
  row.parentId.any gone.contains

/-- A statement: the tables that it leaves, or why it cannot be carried out. -/
abbrev Statement := Database → Except Fault Database

/-- How many rows of a chain, each the parent of the next, one deletion may take along.  This is
the documented bound on actions that set off one another. -/
def cascadeDepth : Nat := 1000

namespace Database

variable (db : Database)

/-- Whether the tables hold a root of that name. -/
def hasRoot (id : String) : Bool :=
  db.roots.any (·.id = id)

/-- Whether the tables hold a member of that name. -/
def hasMember (id : String) : Bool :=
  db.members.any (·.id = id)

/-- Whether the tables hold a member. -/
def memberExists (id : Id) : Bool :=
  db.hasMember id.text

/-- Whether the tables hold all that a container refers to. -/
def holds (container : Container) : Bool :=
  db.hasRoot container.root.text && container.node.all db.memberExists

/-- Changes the rows of a member. -/
def mapMember (id : String) (change : MemberRow → MemberRow) : Database :=
  { db with members := db.members.map fun row => if row.id = id then change row else row }

/-- Inserts a row, which may name itself as its parent. -/
def insertMember (row : Row) (time : String) : Except Fault Database :=
  let inserted := { db with members := db.members ++ [.ofRow row (.at time)] }
  if db.memberExists row.id then
    .error (.createFailed row.id (.uniqueId "members"))
  else if inserted.holds row.parent then
    .ok inserted
  else
    .error (.createFailed row.id .foreignKey)

/-- Sets the fields of a row that an update carries, its container apart. -/
def setMember (update : Update) (time : String) : Except Fault Database :=
  if db.memberExists update.id then
    .ok (db.mapMember update.id.text (·.set update time))
  else
    .error (.memberNotFound update.id)

/-- Puts a row into a container. -/
def moveMember (id : Id) (parent : Container) : Except Fault Database :=
  if db.holds parent then
    .ok (db.mapMember id.text (·.moved parent))
  else
    .error (.broken .foreignKey)

/-- The rows left when those below the rows called `gone` are deleted, level by level.  There may be
no more levels of them than `levels`. -/
def withoutBelow (levels : Nat) (gone : List String) (rows : List MemberRow) :
    Except Fault (List MemberRow) :=
  match rows.filter (·.isBelow gone), levels with
  | [], _ => .ok rows
  | _ :: _, 0 => .error .tooDeep
  | row :: below, levels + 1 =>
    withoutBelow levels ((row :: below).map (·.id)) (rows.filter (!·.isBelow gone))

/-- Deletes a row and all rows below it; does nothing if there is no such row. -/
def deleteMember (id : String) : Except Fault Database :=
  if db.hasMember id then
    (withoutBelow (cascadeDepth - 1) [id] (db.members.filter (·.id ≠ id))).map fun members =>
      { db with members }
  else
    .ok db

/-- Sets the number of a root. -/
def updateRoot (update : RootUpdate) (time : String) : Except Fault Database :=
  let id := update.id.text
  if db.hasRoot id then
    .ok { db with roots := db.roots.map fun row =>
      if row.id = id then { row with order := update.order, updatedAt := time } else row }
  else
    .error (.rootNotFound update.id)

end Database

end Outline.Store

import Outline.Encoding.Record
import Outline.Json.Reader
import Outline.Json.Writer
import Outline.Store.Table

/-!
# Images of the tables

The tables as JSON text, for keeping them in a file.
-/

namespace Outline

/-- Reads a whole number. -/
def Json.int? : Json → Option Int
  | .int n => some n
  | _ => none

namespace Store

/-- The name of a migration. -/
def Migration.text : Migration → String
  | .initial => "001"
  | .rootOrder => "002"

/-- The migration that a text names. -/
def Migration.ofText? : String → Option Migration
  | "001" => some .initial
  | "002" => some .rootOrder
  | _ => none

/-- A stored root as a value. -/
def RootRow.toJson (row : RootRow) : Json :=
  .obj [("id", .str row.id), ("name", .str row.name), ("kind", .str row.kind),
    ("ord", .int row.order), ("created_at", .str row.createdAt),
    ("updated_at", .str row.updatedAt)]

/-- Reads a stored root. -/
def RootRow.ofJson? (value : Json) : Option RootRow := do
  let record ← Record.ofJson? ["id", "name", "kind", "ord", "created_at", "updated_at"] value
  let id ← record.required? "id" Json.text?
  let name ← record.required? "name" Json.text?
  let kind ← record.required? "kind" Json.text?
  let order ← record.required? "ord" Json.int?
  let createdAt ← record.required? "created_at" Json.text?
  let updatedAt ← record.required? "updated_at" Json.text?
  return { id, name, kind, order, createdAt, updatedAt }

/-- A stored member as a value. -/
def MemberRow.toJson (row : MemberRow) : Json :=
  .obj [("id", .str row.id), ("root_id", .str row.rootId),
    ("parent_id", .ofOption Json.str row.parentId), ("name", .str row.name),
    ("kind", .str row.kind), ("ord", .int row.order), ("path", .str row.path),
    ("created_at", .str row.createdAt), ("updated_at", .str row.updatedAt)]

/-- Reads a stored member. -/
def MemberRow.ofJson? (value : Json) : Option MemberRow := do
  let record ← Record.ofJson? ["id", "root_id", "parent_id", "name", "kind", "ord", "path",
    "created_at", "updated_at"] value
  let id ← record.required? "id" Json.text?
  let rootId ← record.required? "root_id" Json.text?
  let parentId ← record.nullable? "parent_id" Json.text?
  let name ← record.required? "name" Json.text?
  let kind ← record.required? "kind" Json.text?
  let order ← record.required? "ord" Json.int?
  let path ← record.required? "path" Json.text?
  let createdAt ← record.required? "created_at" Json.text?
  let updatedAt ← record.required? "updated_at" Json.text?
  return { id, rootId, parentId, name, kind, order, path, createdAt, updatedAt }

namespace Database

/-- The tables as a value. -/
def toJson (db : Database) : Json :=
  .obj [("applied", .ofList (fun migration => .str migration.text) db.applied),
    ("roots", .ofList RootRow.toJson db.roots), ("members", .ofList MemberRow.toJson db.members)]

/-- Reads tables. -/
def ofJson? (value : Json) : Option Database := do
  let record ← Record.ofJson? ["applied", "roots", "members"] value
  let applied ← record.required? "applied" (Json.list? (Json.choice? Migration.ofText?))
  let roots ← record.required? "roots" (Json.list? RootRow.ofJson?)
  let members ← record.required? "members" (Json.list? MemberRow.ofJson?)
  return { applied, roots, members }

/-- The text of a file that keeps the tables. -/
def image (db : Database) : String :=
  db.toJson.text

/-- The tables that a file keeps. -/
def ofImage? (content : String) : Option Database :=
  (Json.ofText? content).bind ofJson?

end Database

end Store

end Outline

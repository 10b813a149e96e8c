import Outline.Batch
import Outline.Encoding.Workspace

/-!
# Batches in JSON

An update is written with the fields that it changes and no others; the lists of a batch are always
written and may be left out when read.
-/

namespace Outline

namespace Row

/-- A row as a value. -/
def toJson (row : Row) : Json :=
  .obj [("id", row.id.toJson), ("parent", row.parent.toJson), ("name", .str row.name),
    ("kind", row.kind.toJson), ("order", .ofNat row.order), ("path", row.path.toJson)]

/-- Reads a row. -/
def ofJson? (value : Json) : Option Row := do
  let record ← Record.ofJson? ["id", "parent", "name", "kind", "order", "path"] value
  let id ← record.required? "id" Id.ofJson?
  let parent ← record.required? "parent" Container.ofJson?
  let name ← record.required? "name" Json.text?
  let kind ← record.required? "kind" Kind.ofJson?
  let order ← record.required? "order" order?
  let path ← record.required? "path" Path.ofJson?
  return { id, parent, name, kind, order, path }

end Row

namespace Update

/-- An update as a value. -/
def toJson (update : Update) : Json :=
  .obj (("id", update.id.toJson) :: (Json.entryOf "order" Json.ofNat update.order ++
    Json.entryOf "parent" Container.toJson update.parent ++
    Json.entryOf "path" Path.toJson update.path ++ Json.entryOf "name" Json.str update.name))

/-- Reads an update. -/
def ofJson? (value : Json) : Option Update := do
  let record ← Record.ofJson? ["id", "order", "parent", "path", "name"] value
  let id ← record.required? "id" Id.ofJson?
  let order ← record.optional? "order" order?
  let parent ← record.optional? "parent" Container.ofJson?
  let path ← record.optional? "path" Path.ofJson?
  let name ← record.optional? "name" Json.text?
  return { id, order, parent, path, name }

end Update

namespace Batch

/-- A batch as a value. -/
def toJson (batch : Batch) : Json :=
  .obj [("container", batch.container.toJson), ("creates", .ofList Row.toJson batch.creates),
    ("updates", .ofList Update.toJson batch.updates), ("deletes", .ofList Id.toJson batch.deletes)]

/-- Reads a batch. -/
def ofJson? (value : Json) : Option Batch := do
  let record ← Record.ofJson? ["container", "creates", "updates", "deletes"] value
  let container ← record.required? "container" Container.ofJson?
  let creates ← record.withDefault? "creates" (Json.list? Row.ofJson?) []
  let updates ← record.withDefault? "updates" (Json.list? Update.ofJson?) []
  let deletes ← record.withDefault? "deletes" (Json.list? Id.ofJson?) []
  return { container, creates, updates, deletes }

end Batch

namespace RootUpdate

/-- The new number of a root as a value. -/
def toJson (update : RootUpdate) : Json :=
  .obj [("id", update.id.toJson), ("order", .ofNat update.order)]

/-- Reads the new number of a root. -/
def ofJson? (value : Json) : Option RootUpdate := do
  let record ← Record.ofJson? ["id", "order"] value
  let id ← record.required? "id" Id.ofJson?
  let order ← record.required? "order" order?
  return { id, order }

end RootUpdate

namespace RootBatch

/-- The new numbers of roots as a value. -/
def toJson (batch : RootBatch) : Json :=
  .obj [("updates", .ofList RootUpdate.toJson batch.updates)]

/-- Reads the new numbers of roots. -/
def ofJson? (value : Json) : Option RootBatch := do
  let record ← Record.ofJson? ["updates"] value
  let updates ← record.withDefault? "updates" (Json.list? RootUpdate.ofJson?) []
  return { updates }

end RootBatch

end Outline

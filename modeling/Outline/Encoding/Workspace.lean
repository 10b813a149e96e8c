import Outline.Encoding.Record
import Outline.Workspace

/-!
# Workspaces in JSON

Identifiers are written as their canonical text, paths as arrays of names.  A member without
children is written without that field.
-/

namespace Outline

/-- Numbers of siblings are below this limit wherever they are stored or sent. -/
def orderLimit : Nat := Nat.pow 2 32

namespace Id

/-- An identifier as a value. -/
def toJson (id : Id) : Json :=
  .str id.text

/-- Reads an identifier. -/
def ofJson? (value : Json) : Option Id :=
  value.text?.bind ofText?

end Id

namespace Path

/-- A path as a value. -/
def toJson (path : Path) : Json :=
  .ofList .str path.segments

/-- Reads a path. -/
def ofJson? (value : Json) : Option Path :=
  (value.list? Json.text?).map fun segments => { segments }

end Path

/-- A kind as a value. -/
def Kind.toJson (kind : Kind) : Json :=
  .str kind.text

/-- Reads a kind. -/
def Kind.ofJson? : Json → Option Kind :=
  Json.choice? ofText?

/-- A shape as a value. -/
def Shape.toJson (shape : Shape) : Json :=
  .str shape.text

/-- Reads a shape. -/
def Shape.ofJson? : Json → Option Shape :=
  Json.choice? ofText?

namespace Container

/-- A container as a value. -/
def toJson (container : Container) : Json :=
  .obj [("root", container.root.toJson), ("node", .ofOption Id.toJson container.node)]

/-- Reads a container. -/
def ofJson? (value : Json) : Option Container := do
  let record ← Record.ofJson? ["root", "node"] value
  let root ← record.required? "root" Id.ofJson?
  let node ← record.nullable? "node" Id.ofJson?
  return { root, node }

end Container

/-- Reads the number of a sibling. -/
def order? : Json → Option Nat :=
  Json.natBelow? orderLimit

mutual

/-- A member as a value. -/
def Member.toJson : Member → Json
  | ⟨id, name, order, kind, path, children⟩ =>
    .obj ([("id", id.toJson), ("name", .str name), ("order", .ofNat order),
      ("kind", kind.toJson), ("path", path.toJson)] ++
      match children with
      | [] => []
      | child :: rest => [("children", .arr (child.toJson :: Forest.toJsons rest))])

/-- The members of a forest as values. -/
def Forest.toJsons : List Member → List Json
  | [] => []
  | m :: ms => m.toJson :: Forest.toJsons ms

end

/-- Reads a member from a value that nests no deeper than `depth`. -/
def Member.ofJsonWithin? : (depth : Nat) → Json → Option Member
  | 0, _ => none
  | depth + 1, value => do
    let record ← Record.ofJson? ["id", "name", "order", "kind", "path", "children"] value
    let id ← record.required? "id" Id.ofJson?
    let name ← record.required? "name" Json.text?
    let order ← record.required? "order" order?
    let kind ← record.required? "kind" Kind.ofJson?
    let path ← record.required? "path" Path.ofJson?
    let children ← record.withDefault? "children" (Json.list? (ofJsonWithin? depth)) []
    return { id, name, order, kind, path, children }

/-- Reads a member. -/
def Member.ofJson? (value : Json) : Option Member :=
  ofJsonWithin? value.depth value

/-- A forest as a value. -/
def Forest.toJson (ms : Forest) : Json :=
  .arr (Forest.toJsons ms)

/-- Reads a forest. -/
def Forest.ofJson? : Json → Option Forest :=
  Json.list? Member.ofJson?

namespace Root

/-- A root as a value. -/
def toJson (root : Root) : Json :=
  .obj [("id", root.id.toJson), ("name", .str root.name), ("kind", root.shape.toJson),
    ("order", .ofNat root.order), ("members", Forest.toJson root.members)]

/-- Reads a root. -/
def ofJson? (value : Json) : Option Root := do
  let record ← Record.ofJson? ["id", "name", "kind", "order", "members"] value
  let id ← record.required? "id" Id.ofJson?
  let name ← record.required? "name" Json.text?
  let shape ← record.required? "kind" Shape.ofJson?
  let order ← record.required? "order" order?
  let members ← record.required? "members" Forest.ofJson?
  return { id, name, shape, order, members }

end Root

namespace Workspace

/-- A workspace as a value. -/
def toJson (w : Workspace) : Json :=
  .obj [("roots", .ofList Root.toJson w.roots)]

/-- Reads a workspace. -/
def ofJson? (value : Json) : Option Workspace := do
  let record ← Record.ofJson? ["roots"] value
  let roots ← record.required? "roots" (Json.list? Root.ofJson?)
  return { roots }

end Workspace

end Outline

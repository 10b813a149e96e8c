import Outline.Encoding.Workspace
import Outline.Session

/-!
# Drags in JSON

A payload names its family and holds its source; a target names what it is and holds the fields of
that beside the name.
-/

namespace Outline

/-- An action as a value. -/
def Action.toJson (action : Action) : Json :=
  .str action.text

/-- Reads an action. -/
def Action.ofJson? : Json → Option Action :=
  Json.choice? ofText?

/-- A stage as a value. -/
def Stage.toJson (stage : Stage) : Json :=
  .str stage.text

/-- Reads a stage. -/
def Stage.ofJson? : Json → Option Stage :=
  Json.choice? ofText?

namespace Instruction

/-- An instruction as a value. -/
def toJson (instruction : Instruction) : Json :=
  .obj [("operation", instruction.action.toJson), ("blocked", .bool instruction.blocked)]

/-- Reads an instruction, which is not blocked unless it says so. -/
def ofJson? (value : Json) : Option Instruction := do
  let record ← Record.ofJson? ["operation", "blocked"] value
  let action ← record.required? "operation" Action.ofJson?
  let blocked ← record.withDefault? "blocked" Json.bool? false
  return { action, blocked }

end Instruction

namespace Origin

/-- An origin as a value. -/
def toJson (origin : Origin) : Json :=
  .obj [("container", origin.container.toJson), ("member_id", origin.member.toJson)]

/-- Reads an origin. -/
def ofJson? (value : Json) : Option Origin := do
  let record ← Record.ofJson? ["container", "member_id"] value
  let container ← record.required? "container" Container.ofJson?
  let member ← record.required? "member_id" Id.ofJson?
  return { container, member }

end Origin

/-- The family that a name stands for; `root` stands for none of them. -/
def Family.ofName? : String → Option (Option Family)
  | "tree_node" => some (some .treeNode)
  | "flat_list_item" => some (some .listItem)
  | "grouped_list" => some (some .group)
  | "root" => some none
  | _ => none

namespace Payload

/-- A payload as a value. -/
def toJson : Payload → Json
  | .member family origin => .obj [("type", .str family.text), ("source", origin.toJson)]
  | .root id => .obj [("type", .str "root"), ("source", id.toJson)]

/-- Reads a payload. -/
def ofJson? (value : Json) : Option Payload := do
  let record ← Record.ofJson? ["type", "source"] value
  match ← record.required? "type" (Json.choice? Family.ofName?) with
  | some family => return .member family (← record.required? "source" Origin.ofJson?)
  | none => return .root (← record.required? "source" Id.ofJson?)

end Payload

namespace Target

/-- A target as a value. -/
def toJson : Target → Json
  | .member container id =>
    .obj [("type", .str "member"), ("container", container.toJson), ("member_id", id.toJson)]
  | .root id => .obj [("type", .str "root"), ("root", id.toJson)]

/-- Reads a target that is a member. -/
def memberOfJson? (value : Json) : Option Target := do
  let record ← Record.ofJson? ["type", "container", "member_id"] value
  let "member" ← record.required? "type" Json.text? | none
  let container ← record.required? "container" Container.ofJson?
  let id ← record.required? "member_id" Id.ofJson?
  return .member container id

/-- Reads a target that is a root. -/
def rootOfJson? (value : Json) : Option Target := do
  let record ← Record.ofJson? ["type", "root"] value
  let "root" ← record.required? "type" Json.text? | none
  return .root (← record.required? "root" Id.ofJson?)

/-- Reads a target. -/
def ofJson? (value : Json) : Option Target :=
  (memberOfJson? value).or (rootOfJson? value)

end Target

namespace Candidate

/-- A candidate as a value. -/
def toJson (candidate : Candidate) : Json :=
  .obj [("target", candidate.target.toJson),
    ("instruction", .ofOption Instruction.toJson candidate.instruction)]

/-- Reads a candidate. -/
def ofJson? (value : Json) : Option Candidate := do
  let record ← Record.ofJson? ["target", "instruction"] value
  let target ← record.required? "target" Target.ofJson?
  let instruction ← record.nullable? "instruction" Instruction.ofJson?
  return { target, instruction }

end Candidate

namespace Location

/-- A location as a value. -/
def toJson (location : Location) : Json :=
  .obj [("candidates", .ofList Candidate.toJson location.candidates)]

/-- Reads a location. -/
def ofJson? (value : Json) : Option Location := do
  let record ← Record.ofJson? ["candidates"] value
  let candidates ← record.required? "candidates" (Json.list? Candidate.ofJson?)
  return { candidates }

end Location

end Outline

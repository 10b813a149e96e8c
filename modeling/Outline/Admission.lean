import Outline.Lookup
import Outline.Refusal
import Outline.Text.Blank

/-!
# Admission of new names

A new member and a new name are held to the rules of the container: the name is not blank and no
sibling has it in lower case, and a new member also fits the root's shape.
-/

namespace Outline.Workspace

variable (w : Workspace)

/-- Refuses to add a member to a container against the rules. -/
def checkInsert (container : Container) (name : String) (kind : Kind) : Except Refusal Unit :=
  if Text.isBlank name then
    .error .emptyName
  else
    match w.shape? container, w.members? container, w.depth? container with
    | none, _, _ => .error (.targetMissing container.root)
    | some _, none, _ => .error (.notInterior container.owner)
    | some _, some _, none => .error (.targetMissing container.root)
    | some shape, some siblings, some depth =>
      if shape.accepts depth kind then
        match findCollision? siblings name none with
        | some twin => .error (.nameCollision twin.name)
        | none => .ok ()
      else
        .error (.incompatible (.new kind) container)

/-- Refuses to rename a member against the rules; otherwise gives the container that lists it. -/
def checkRename (id : Id) (name : String) : Except Refusal Container :=
  if Text.isBlank name then
    .error .emptyName
  else
    match w.locate? id with
    | none => .error (.targetMissing id)
    | some found =>
      match w.members? found.container with
      | none => .error (.targetMissing id)
      | some siblings =>
        match findCollision? siblings name (some id) with
        | some twin => .error (.nameCollision twin.name)
        | none => .ok found.container

end Outline.Workspace

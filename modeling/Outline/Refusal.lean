import Outline.Drag
import Outline.Text.Quoted

/-!
# Refusals

A drop or an edit that the rules forbid is refused before anything is computed.
-/

namespace Outline

/-- What cannot be placed where it was asked to go. -/
inductive Subject where
  | member (family : Family)
  | root
  /-- A new member. -/
  | new (kind : Kind)
  deriving DecidableEq

/-- The name of a subject in messages. -/
def Subject.text : Subject → String
  | .member family => family.text
  | .root => "root"
  | .new kind => kind.text

/-- Why a drop or an edit is refused. -/
inductive Refusal where
  | blocked
  | noLocation
  | noInstruction
  /-- What is dragged is not where it is said to come from. -/
  | sourceMissing (id : Id)
  | targetMissing (id : Id)
  | selfTarget
  /-- A member of the target container has the name in lower case; its own spelling is given. -/
  | nameCollision (name : String)
  | cycle (member : Id)
  | notInterior (id : Id)
  | alreadyInContainer
  | incompatible (subject : Subject) (container : Container)
  | emptyName
  deriving DecidableEq

/-- The text of a refusal. -/
def Refusal.message : Refusal → String
  | .blocked => "drop instruction is blocked"
  | .noLocation => "no drop target under the pointer"
  | .noInstruction => "drop target carries no instruction"
  | .sourceMissing id => s!"dragged member {id.text} is not in its claimed container"
  | .targetMissing id => s!"drop target {id.text} not found"
  | .selfTarget => "member cannot be dropped relative to itself"
  | .nameCollision name => "target container already has a member named " ++ Text.quoted name
  | .cycle member => s!"member {member.text} cannot be moved into its own subtree"
  | .notInterior id => s!"target {id.text} cannot own children"
  | .alreadyInContainer => "member is already a direct child of the target"
  | .incompatible subject container =>
    s!"{subject.text} cannot be placed in {container.text}"
  | .emptyName => "member name must not be empty"

end Outline

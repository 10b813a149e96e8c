import Outline.Workspace

/-!
# Drags and drops as reported

What is being dragged, what lies under the pointer when it is released, and what the drop asks for
there.  None of it has been checked against a workspace.
-/

namespace Outline

/-- The side of a target on which something lands. -/
inductive Side where
  | before
  | after
  deriving DecidableEq, Inhabited

/-- What a drop asks for. -/
inductive Action where
  /-- Land next to the target, among its siblings. -/
  | beside (side : Side)
  /-- Land inside the target, after its last child. -/
  | combine
  deriving DecidableEq, Inhabited

/-- The name of an action. -/
def Action.text : Action → String
  | .beside .before => "reorder-before"
  | .beside .after => "reorder-after"
  | .combine => "combine"

/-- The action that a text names. -/
def Action.ofText? : String → Option Action
  | "reorder-before" => some (.beside .before)
  | "reorder-after" => some (.beside .after)
  | "combine" => some .combine
  | _ => none

@[simp] theorem Action.ofText?_text (action : Action) : ofText? action.text = some action := by
  match action with
  | .beside .before | .beside .after | .combine => rfl

/-- An action, and whether it is ruled out from the start. -/
structure Instruction where
  action : Action
  blocked : Bool := false
  deriving DecidableEq, Inhabited

/-- Where a dragged member is said to come from. -/
structure Origin where
  container : Container
  member : Id
  deriving DecidableEq, Inhabited

/-- What sort of member is dragged.  Each family lands only in roots of its own. -/
inductive Family where
  /-- A member of a tree. -/
  | treeNode
  /-- A leaf of a flat or grouped list. -/
  | listItem
  /-- A group of a grouped list. -/
  | group
  deriving DecidableEq, Inhabited

/-- The name of a family in messages. -/
def Family.text : Family → String
  | .treeNode => "tree_node"
  | .listItem => "flat_list_item"
  | .group => "grouped_list"

/-- What is dragged: a member from its container, or a root. -/
inductive Payload where
  | member (family : Family) (origin : Origin)
  | root (root : Id)
  deriving DecidableEq, Inhabited

/-- The name of what is dragged. -/
def Payload.text : Payload → String
  | .member family _ => family.text
  | .root _ => "root"

/-- What a drag is released over: a member in its container, or the header of a root. -/
inductive Target where
  | member (container : Container) (member : Id)
  | root (root : Id)
  deriving DecidableEq, Inhabited

/-- A target under the pointer, with the instruction it carries, if any. -/
structure Candidate where
  target : Target
  instruction : Option Instruction := none
  deriving DecidableEq, Inhabited

/-- The targets under the pointer, innermost first. -/
structure Location where
  candidates : List Candidate
  deriving DecidableEq, Inhabited

/-- The location of a single target that asks for an action. -/
def Location.single (target : Target) (action : Action) : Location where
  candidates := [{ target, instruction := some { action } }]

/-- The innermost target, the only one that counts. -/
def Location.innermost? (location : Location) : Option Candidate :=
  location.candidates.head?

end Outline

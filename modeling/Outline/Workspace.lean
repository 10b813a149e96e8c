import Outline.Member
import Outline.Order

/-!
# Workspaces

A workspace lists roots.  Each root owns a forest, and its shape says how deep the forest may grow
and which kinds of members stand where.
-/

namespace Outline

/-- The shape of a root's forest. -/
inductive Shape where
  /-- Members of any kind at any depth. -/
  | tree
  /-- Leaves directly under the root and nothing else. -/
  | flatList
  /-- Interior members directly under the root, with leaves as their children. -/
  | groupedList
  deriving DecidableEq, Inhabited

namespace Shape

/-- The name of a shape in drawings and stored rows. -/
def text : Shape → String
  | .tree => "tree"
  | .flatList => "flat_list"
  | .groupedList => "grouped_list"

/-- The shape that a text names. -/
def ofText? : String → Option Shape
  | "tree" => some .tree
  | "flat_list" => some .flatList
  | "grouped_list" => some .groupedList
  | _ => none

@[simp] theorem ofText?_text (shape : Shape) : ofText? shape.text = some shape := by
  cases shape <;> rfl

/-- Whether a member of the kind may stand at the depth, counted from zero below the root. -/
def accepts (shape : Shape) (depth : Nat) (kind : Kind) : Bool :=
  match shape, depth, kind with
  | .tree, _, _ => true
  | .flatList, 0, .leaf => true
  | .groupedList, 0, .interior => true
  | .groupedList, 1, .leaf => true
  | _, _, _ => false

end Shape

/-- What owns an ordered list of members: a root, or the interior member `node` of that root. -/
structure Container where
  root : Id
  node : Option Id := none
  deriving DecidableEq, Inhabited

namespace Container

/-- The container that is the root itself. -/
def ofRoot (root : Id) : Container where
  root := root

/-- The container that is a member of the root. -/
def ofNode (root node : Id) : Container where
  root := root
  node := some node

/-- Whether the container is a root. -/
def isRoot (container : Container) : Bool :=
  container.node.isNone

/-- The identifier of the member or, failing that, the root that is the container. -/
def owner (container : Container) : Id :=
  container.node.getD container.root

/-- The root's identifier, then a slash and the member's if the container is a member. -/
def text (container : Container) : String :=
  match container.node with
  | none => container.root.text
  | some node => container.root.text ++ "/" ++ node.text

end Container

/-- A top-level list of members, itself numbered among the roots of a workspace. -/
structure Root where
  id : Id
  name : String
  shape : Shape
  order : Nat
  members : Forest
  deriving DecidableEq, Inhabited

namespace Root

/-- A root without members that has not been numbered yet. -/
def fresh (id : Id) (name : String) (shape : Shape) : Root where
  id := id
  name := name
  shape := shape
  order := 0
  members := []

/-- The root without its members. -/
def shallow (root : Root) : Root :=
  { root with members := [] }

/-- The root with other members, taken as they are. -/
def withMembers (root : Root) (members : Forest) : Root :=
  { root with members := members }

/-- The container that the root is. -/
def container (root : Root) : Container :=
  .ofRoot root.id

end Root

instance : Ordered Member where
  id := Member.id
  order := Member.order
  withOrder m n := { m with order := n }

instance : Ordered Root where
  id := Root.id
  order := Root.order
  withOrder r n := { r with order := n }

/-- Every root that is shown, in display order. -/
structure Workspace where
  roots : List Root
  deriving DecidableEq, Inhabited

/-- The workspace of the roots as listed, numbered from one. -/
def Workspace.ofRoots (roots : List Root) : Workspace where
  roots := Ordered.renumber roots

end Outline

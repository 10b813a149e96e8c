import Outline.Lookup
import Outline.Text.Quoted

/-!
# Defects

A workspace at rest numbers all siblings densely, names them apart in lower case, derives every
path from the names above it and fits every root's shape.  `Workspace.defects` lists what falls
short, top down in listed order.
-/

namespace Outline

/-- A way in which a workspace falls short. -/
inductive Defect where
  /-- The members of a container, whose numbers are given in ascending order, are not numbered
  `1, …, n`. -/
  | notDense (container : Container) (orders : List Nat)
  /-- A member has the name of an earlier sibling. -/
  | duplicateName (container : Container) (name : String)
  | pathMismatch (member : Id) (expected actual : Path)
  | shapeMismatch (container : Container) (member : Id)
  | leafWithChildren (member : Id)
  /-- The roots, whose numbers are given in ascending order, are not numbered `1, …, n`. -/
  | rootsNotDense (orders : List Nat)
  deriving DecidableEq

/-- Numbers in brackets, as messages list them. -/
def numberList (ns : List Nat) : String :=
  "[" ++ ", ".intercalate (ns.map toString) ++ "]"

/-- The text of a defect. -/
def Defect.message : Defect → String
  | .notDense container orders =>
    s!"orders in {container.text} are not 1..N: " ++ numberList orders
  | .duplicateName container name =>
    s!"{container.text} has more than one member named " ++ Text.quoted name
  | .pathMismatch member expected actual =>
    s!"member {member.text} has path {actual.text} but should have {expected.text}"
  | .shapeMismatch container member =>
    s!"member {member.text} does not fit the shape of {container.text}"
  | .leafWithChildren member => s!"leaf member {member.text} owns children"
  | .rootsNotDense orders => "root orders are not 1..N: " ++ numberList orders

/-- The numbers of the items in ascending order. -/
def sortedOrders {α : Type} [Ordered α] (items : List α) : List Nat :=
  (Ordered.sorted items).map Ordered.order

/-- Where a list of members stands: in which container of a root of which shape, at which path and
depth. -/
structure Site where
  shape : Shape
  container : Container
  path : Path
  depth : Nat

/-- The place of the children of a member that stands at `site`. -/
def Site.below (site : Site) (member : Id) (name : String) : Site where
  shape := site.shape
  container := .ofNode site.container.root member
  path := site.path.child name
  depth := site.depth + 1

/-- The defect of a list that is not numbered densely. -/
def densityDefects (site : Site) (ms : Forest) : List Defect :=
  if Ordered.isDense ms then [] else [.notDense site.container (sortedOrders ms)]

/-- The defects of a member at `site` that do not concern its children, given its earlier
siblings. -/
def ownDefects (site : Site) (earlier : Forest) (m : Member) : List Defect :=
  (if (findCollision? earlier m.name none).isSome then
    [.duplicateName site.container m.name] else []) ++
  (if m.path ≠ site.path.child m.name then
    [.pathMismatch m.id (site.path.child m.name) m.path] else []) ++
  (if site.shape.accepts site.depth m.kind then [] else [.shapeMismatch site.container m.id])

mutual

/-- The defects of what stands below a member at `site`. -/
def Member.innerDefects : Member → Site → List Defect
  | ⟨id, name, _, kind, _, children⟩, site =>
    match kind with
    | .interior =>
      densityDefects (site.below id name) children ++
        Forest.memberDefects children (site.below id name) []
    | .leaf => if children.isEmpty then [] else [.leafWithChildren id]

/-- The defects of the members at `site` that follow `earlier`, each with what stands below it. -/
def Forest.memberDefects : List Member → Site → (earlier : List Member) → List Defect
  | [], _, _ => []
  | m :: ms, site, earlier =>
    ownDefects site earlier m ++ m.innerDefects site ++
      Forest.memberDefects ms site (earlier ++ [m])

end

/-- The defects of a list of members and all below it. -/
def Forest.defects (site : Site) (ms : Forest) : List Defect :=
  densityDefects site ms ++ Forest.memberDefects ms site []

/-- The place of a root's members. -/
def Root.site (root : Root) : Site where
  shape := root.shape
  container := root.container
  path := .root
  depth := 0

/-- Everything in which the workspace falls short. -/
def Workspace.defects (w : Workspace) : List Defect :=
  (if Ordered.isDense w.roots then [] else [.rootsNotDense (sortedOrders w.roots)]) ++
    w.roots.flatMap fun root => Forest.defects root.site root.members

end Outline

import Outline.Move
import Outline.Siblings

/-!
# Rearrangements

A move, or an edit, computed against a workspace: for every list it touches, what the list was and
what it becomes.  Nothing is changed yet.
-/

namespace Outline

/-- A member that comes to a list from another container, as it was there. -/
structure Arrival where
  source : Container
  member : Member
  deriving DecidableEq

/-- What becomes of the members of one container. -/
structure Change where
  container : Container
  before : Forest
  after : Forest
  arrivals : List Arrival := []
  /-- The members that are gone for good. -/
  deleted : List Id := []
  deriving DecidableEq

/-- What becomes of the list of roots, which is shown without their members. -/
structure RootChange where
  before : List Root
  after : List Root
  deriving DecidableEq

/-- Every list that one operation touches, computed from one workspace. -/
structure Rearrangement where
  changes : List Change := []
  roots : Option RootChange := none
  deriving DecidableEq, Inhabited

namespace Rearrangement

/-- Whether every list stays as it is. -/
def isNoop (r : Rearrangement) : Bool :=
  (r.changes.all fun change => change.before = change.after && change.deleted.isEmpty) &&
    r.roots.all fun roots => roots.before = roots.after

/-- Fails if a container or a root that is touched is not in the workspace. -/
def resolve (r : Rearrangement) (w : Workspace) : Except Absence Unit :=
  match r.changes.find? fun change => (w.members? change.container).isNone with
  | some change => .error (.noContainer change.container)
  | none =>
    match r.roots.bind fun roots => roots.after.find? fun root => (w.root? root.id).isNone with
    | some root => .error (.noRoot root.id)
    | none => .ok ()

/-- A member that goes from one listing to another. -/
def ofTransfer (source destination : Listing) (transfer : Transfer) : Rearrangement where
  changes := [
    { container := source.container
      before := source.members
      after := transfer.source },
    { container := destination.container
      before := destination.members
      after := transfer.destination
      arrivals := [{ source := source.container, member := transfer.moved }] }]

end Rearrangement

namespace Workspace

variable (w : Workspace)

/-- The listing of a container, which has to be there. -/
def listing (container : Container) : Except Absence Listing :=
  match w.members? container with
  | some members => .ok { container, members }
  | none => .error (.noContainer container)

/-- The path of a container, which has to be there. -/
def path (container : Container) : Except Absence Path :=
  match w.path? container with
  | some path => .ok path
  | none => .error (.noContainer container)

/-- A member moves to the end of another container. -/
def combine (origin : Origin) (destination : Container) : Except Absence Rearrangement := do
  let source ← w.listing origin.container
  let target ← w.listing destination
  let path ← w.path destination
  let transfer ← source.moveLast target.members origin.member path
  return .ofTransfer source target transfer

/-- What a move makes of the lists it touches. -/
def rearrange : Move → Except Absence Rearrangement
  | .ofRoot root target side => do
    let before := w.roots.map Root.shallow
    let after ← reorderRoots before root target side
    return { roots := some { before, after } }
  | .within origin target side => do
    let siblings ← w.listing origin.container
    let after ← siblings.reorder origin.member target side
    return { changes := [{ container := origin.container, before := siblings.members, after }] }
  | .across origin destination target side => do
    let source ← w.listing origin.container
    let landing ← w.listing destination
    let path ← w.path destination
    let transfer ← source.moveBeside landing origin.member target side path
    return .ofTransfer source landing transfer
  | .intoMember origin destination => w.combine origin destination
  | .intoRoot origin root => w.combine origin (.ofRoot root)

/-- Takes a member out together with all below it. -/
def delete (id : Id) : Except Absence Rearrangement := do
  let some found := w.locate? id | .error (.noMember id)
  let siblings ← w.listing found.container
  let (after, removed) ← siblings.remove id
  return { changes := [{
    container := found.container, before := siblings.members, after, deleted := removed.ids }] }

/-- Puts a new member, called `id`, at the end of a container. -/
def add (container : Container) (name : String) (kind : Kind) (id : Id) :
    Except Absence Rearrangement := do
  let siblings ← w.listing container
  let path ← w.path container
  let after := Ordered.append siblings.members (.fresh id name 0 kind path)
  return { changes := [{ container, before := siblings.members, after }] }

/-- Gives a member another name, and all below it the paths that follow from it. -/
def rename (id : Id) (name : String) : Except Absence Rearrangement := do
  let some found := w.locate? id | .error (.noMember id)
  let siblings ← w.listing found.container
  let path ← w.path found.container
  let after := siblings.members.map fun m =>
    if m.id = id then { m with name := name }.rebased path else m
  return { changes := [{ container := found.container, before := siblings.members, after }] }

end Workspace

end Outline

import Outline.Workspace

/-!
# Looking things up

Members are found by searching each root depth first, so the first of two members with one
identifier is the one found.  A focus finds the same part and also says how to put another in its
place.
-/

namespace Outline

/-- A member found in a workspace. -/
structure Located where
  member : Member
  /-- The container that lists the member. -/
  container : Container
  /-- How many members stand between the root and this one. -/
  depth : Nat
  deriving DecidableEq

/-- A part of a whole, and how to put another part in its place. -/
structure Focus (Whole Part : Type) where
  part : Part
  replace : Part → Whole

mutual

/-- Searches the member and all below it, given the container that lists it and its depth. -/
def Member.locate? : Member → Id → Container → Nat → Option Located
  | ⟨mid, name, order, kind, path, children⟩, id, container, depth =>
    if mid = id then
      some ⟨⟨mid, name, order, kind, path, children⟩, container, depth⟩
    else
      Forest.locate? children id (.ofNode container.root mid) (depth + 1)

/-- Searches the forest that `container` owns at `depth`. -/
def Forest.locate? : List Member → Id → Container → Nat → Option Located
  | [], _, _, _ => none
  | m :: ms, id, container, depth =>
    match m.locate? id container depth with
    | some found => some found
    | none => Forest.locate? ms id container depth

end

mutual

/-- Focuses on the first member called `id` among this one and all below it. -/
def Member.focus? : Member → Id → Option (Focus Member Member)
  | ⟨mid, name, order, kind, path, children⟩, id =>
    if mid = id then
      some ⟨⟨mid, name, order, kind, path, children⟩, fun other => other⟩
    else
      (Forest.focus? children id).map fun below =>
        ⟨below.part, fun other => ⟨mid, name, order, kind, path, below.replace other⟩⟩

/-- Focuses on the first member of the forest called `id`, at any depth. -/
def Forest.focus? : List Member → Id → Option (Focus (List Member) Member)
  | [], _ => none
  | m :: ms, id =>
    match m.focus? id with
    | some here => some ⟨here.part, fun other => here.replace other :: ms⟩
    | none => (Forest.focus? ms id).map fun later =>
        ⟨later.part, fun other => m :: later.replace other⟩

end

/-- Focuses on the first root called `id`. -/
def focusRoot? : List Root → Id → Option (Focus (List Root) Root)
  | [], _ => none
  | r :: rs, id =>
    if r.id = id then
      some ⟨r, fun other => other :: rs⟩
    else
      (focusRoot? rs id).map fun later => ⟨later.part, fun other => r :: later.replace other⟩

namespace Workspace

/-- The first root called `id`. -/
def root? (w : Workspace) (id : Id) : Option Root :=
  w.roots.find? (·.id = id)

/-- The first member called `id`, in any root. -/
def locate? (w : Workspace) (id : Id) : Option Located :=
  w.roots.findSome? fun root => Forest.locate? root.members id root.container 0

/-- The first member called `id` in one root. -/
def locateIn? (w : Workspace) (root id : Id) : Option Located :=
  (w.root? root).bind fun r => Forest.locate? r.members id r.container 0

/-- The members that a container owns; `none` if it is not found or is a leaf. -/
def members? (w : Workspace) (container : Container) : Option Forest :=
  (w.root? container.root).bind fun root =>
    match container.node with
    | none => some root.members
    | some node =>
      (Forest.locate? root.members node root.container 0).bind fun found =>
        if found.member.isInterior then some found.member.children else none

/-- The path of a container: empty for a root, the member's own otherwise. -/
def path? (w : Workspace) (container : Container) : Option Path :=
  match container.node with
  | none => (w.root? container.root).map fun _ => .root
  | some node => (w.locateIn? container.root node).map (·.member.path)

/-- The depth at which the members of a container stand. -/
def depth? (w : Workspace) (container : Container) : Option Nat :=
  match container.node with
  | none => (w.root? container.root).map fun _ => 0
  | some node => (w.locateIn? container.root node).map (·.depth + 1)

/-- The shape of the root that a container belongs to. -/
def shape? (w : Workspace) (container : Container) : Option Shape :=
  (w.root? container.root).map (·.shape)

/-- Focuses on the first root called `id`. -/
def focusRoot? (w : Workspace) (id : Id) : Option (Focus Workspace Root) :=
  (Outline.focusRoot? w.roots id).map fun root =>
    ⟨root.part, fun other => ⟨root.replace other⟩⟩

/-- Focuses on the members that a container owns. -/
def focus? (w : Workspace) (container : Container) : Option (Focus Workspace Forest) :=
  (w.focusRoot? container.root).bind fun root =>
    match container.node with
    | none => some ⟨root.part.members, fun ms => root.replace (root.part.withMembers ms)⟩
    | some node =>
      (Forest.focus? root.part.members node).bind fun owner =>
        if owner.part.isInterior then
          some ⟨owner.part.children, fun ms =>
            root.replace (root.part.withMembers (owner.replace { owner.part with children := ms }))⟩
        else
          none

end Workspace

/-- The first of the siblings, other than the one called `except`, that has the name in lower
case. -/
def findCollision? (siblings : Forest) (name : String) (except : Option Id) : Option Member :=
  siblings.find? fun m => some m.id ≠ except && m.nameMatches name

end Outline

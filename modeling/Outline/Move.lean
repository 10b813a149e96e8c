import Outline.Lookup
import Outline.Refusal

/-!
# Moves

A move is what an admissible drop amounts to.  `classify` reads the workspace and finds the move, or
says why the drop is refused.
-/

namespace Outline

/-- What a drop amounts to. -/
inductive Move where
  /-- Next to a sibling, in the container where the member is. -/
  | within (origin : Origin) (target : Id) (side : Side)
  /-- Next to a member of another container. -/
  | across (origin : Origin) (destination : Container) (target : Id) (side : Side)
  /-- Into an interior member, last. -/
  | intoMember (origin : Origin) (destination : Container)
  /-- Directly under a root, last. -/
  | intoRoot (origin : Origin) (root : Id)
  /-- A root next to another root. -/
  | ofRoot (root target : Id) (side : Side)
  deriving DecidableEq, Inhabited

/-- Whether members of the family may move into roots of the shape. -/
def Family.landsIn : Family → Shape → Bool
  | .treeNode, shape => shape = .tree
  | .listItem, shape => shape = .flatList || shape = .groupedList
  | .group, _ => false

/-- Whether a member found in a root of the shape is of the family. -/
def Family.describes (family : Family) (shape : Shape) (found : Located) : Bool :=
  match family with
  | .treeNode => shape = .tree
  | .listItem => found.member.kind = .leaf && (shape = .flatList || shape = .groupedList)
  | .group => shape = .groupedList && found.depth = 0

namespace Workspace

variable (w : Workspace)

/-- The member of the container's root called `id`, provided that the container lists it. -/
def locateAt? (container : Container) (id : Id) : Option Located :=
  (w.locateIn? container.root id).filter (·.container = container)

/-- Refuses to move a member into a container against the rules: a member does not move below
itself, fits the shape and family of the root, and repeats no sibling's name. -/
def checkDestination (family : Family) (source : Located) (destination : Container) :
    Except Refusal Unit :=
  let moved := source.member
  if destination.node.any fun node => node = moved.id || moved.contains node then
    .error (.cycle moved.id)
  else
    match w.shape? destination, w.depth? destination with
    | none, _ => .error (.targetMissing destination.root)
    | some _, none => .error (.targetMissing destination.owner)
    | some shape, some depth =>
      if family.landsIn shape && shape.accepts depth moved.kind then
        match w.members? destination with
        | none => .error (.notInterior destination.owner)
        | some siblings =>
          match findCollision? siblings moved.name (some moved.id) with
          | some twin => .error (.nameCollision twin.name)
          | none => .ok ()
      else
        .error (.incompatible (.member family) destination)

/-- A member dropped onto the header of a root. -/
def classifyOntoRoot (family : Family) (origin : Origin) (source : Located) (root : Id) :
    Except Refusal Move :=
  if family = .group then
    .error (.incompatible (.member family) (.ofRoot root))
  else if (w.root? root).isNone then
    .error (.targetMissing root)
  else if Container.ofRoot root = source.container then
    .error .alreadyInContainer
  else
    (w.checkDestination family source (.ofRoot root)).map fun () => .intoRoot origin root

/-- A member dropped onto a member. -/
def classifyOntoMember (family : Family) (origin : Origin) (source : Located)
    (container : Container) (target : Id) : Except Refusal Move :=
  let destination := Container.ofNode container.root target
  if family = .group then
    .error (.incompatible (.member family) container)
  else if target = origin.member then
    .error .selfTarget
  else
    match w.locateAt? container target with
    | none => .error (.targetMissing target)
    | some found =>
      if !found.member.isInterior then
        .error (.notInterior target)
      else if destination = source.container then
        .error .alreadyInContainer
      else
        (w.checkDestination family source destination).map fun () =>
          .intoMember origin destination

/-- A member dropped next to a member. -/
def classifyBeside (family : Family) (origin : Origin) (source : Located)
    (container : Container) (target : Id) (side : Side) : Except Refusal Move :=
  if target = origin.member then
    .error .selfTarget
  else
    match w.locateAt? container target with
    | none => .error (.targetMissing target)
    | some found =>
      if found.container = source.container then
        .ok (.within origin target side)
      else if family = .group then
        .error (.incompatible (.member family) found.container)
      else
        (w.checkDestination family source found.container).map fun () =>
          .across origin found.container target side

/-- A member dropped on a target.  The member has to be where it is said to be, and of the
family. -/
def classifyMember (family : Family) (origin : Origin) (action : Action) (target : Target) :
    Except Refusal Move :=
  match w.locateAt? origin.container origin.member with
  | none => .error (.sourceMissing origin.member)
  | some source =>
    match w.shape? source.container with
    | none => .error (.sourceMissing source.member.id)
    | some shape =>
      if family.describes shape source then
        match action, target with
        | .combine, .root root => w.classifyOntoRoot family origin source root
        | .combine, .member container member =>
          w.classifyOntoMember family origin source container member
        | .beside side, .member container member =>
          w.classifyBeside family origin source container member side
        | .beside _, .root root => .error (.incompatible (.member family) (.ofRoot root))
      else
        .error (.incompatible (.member family) source.container)

/-- A root dropped on a target.  Roots only move next to other roots. -/
def classifyRoot (root : Id) (action : Action) (target : Target) : Except Refusal Move :=
  if (w.root? root).isNone then
    .error (.sourceMissing root)
  else
    match action, target with
    | _, .member container _ => .error (.incompatible .root container)
    | .combine, .root other => .error (.incompatible .root (.ofRoot other))
    | .beside side, .root other =>
      if other = root then
        .error .selfTarget
      else if (w.root? other).isNone then
        .error (.targetMissing other)
      else
        .ok (.ofRoot root other side)

/-- The move that a drop amounts to, or why it is refused.  Only the innermost target counts. -/
def classify (payload : Payload) (location : Location) : Except Refusal Move :=
  match location.innermost? with
  | none => .error .noLocation
  | some candidate =>
    match candidate.instruction with
    | none => .error .noInstruction
    | some instruction =>
      if instruction.blocked then
        .error .blocked
      else
        match payload with
        | .root root => w.classifyRoot root instruction.action candidate.target
        | .member family origin =>
          w.classifyMember family origin instruction.action candidate.target

end Workspace

end Outline

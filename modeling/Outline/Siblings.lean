import Outline.Absence
import Outline.Drag

/-!
# Moving among siblings

What happens to the lists themselves when an item moves next to another, moves to another list, or
leaves.  Lists may arrive with gaps, repeated numbers or in any listing; what comes out is listed in
order and numbered from one.
-/

namespace Outline

section

variable {α : Type} [Ordered α]

/-- The first item called `id`, and the others as listed. -/
def takeFirst? (id : Id) : List α → Option (α × List α)
  | [] => none
  | x :: xs =>
    if Ordered.id x = id then
      some (x, xs)
    else
      (takeFirst? id xs).map fun (found, rest) => (found, x :: rest)

/-- The item called `id`, and the others in order. -/
def takeOut? (items : List α) (id : Id) : Option (α × List α) :=
  takeFirst? id (Ordered.sorted items)

/-- The index at which to insert so as to land on the given side of `target`. -/
def landingIndex? (items : List α) (target : Id) (side : Side) : Option Nat :=
  (items.findIdx? (Ordered.id · = target)).map fun index =>
    match side with
    | .before => index
    | .after => index + 1

/-- Moves an item next to another of the same list.  `missing` says what it means that one of the
two is not there. -/
def reorder {ε : Type} (missing : Id → ε) (items : List α) (moved target : Id) (side : Side) :
    Except ε (List α) :=
  match takeOut? items moved with
  | none => .error (missing moved)
  | some (item, rest) =>
    match landingIndex? rest target side with
    | none => .error (missing target)
    | some index => .ok (Ordered.insertAt rest item index)

end

/-- A list of members, and the container that owns it. -/
structure Listing where
  container : Container
  members : Forest

/-- The member of a listing called `id`, as it is there, and the listing's members without it. -/
def Listing.remove (source : Listing) (id : Id) : Except Absence (Forest × Member) :=
  match takeOut? source.members id, Ordered.withdraw? source.members id with
  | some (member, _), some rest => .ok (rest, member)
  | _, _ => .error (.notAmong id source.container)

/-- Moves a member of a listing next to another. -/
def Listing.reorder (siblings : Listing) (moved target : Id) (side : Side) :
    Except Absence Forest :=
  Outline.reorder (.notAmong · siblings.container) siblings.members moved target side

/-- What two lists become when a member goes from one to the other. -/
structure Transfer where
  source : Forest
  destination : Forest
  /-- The member as it was. -/
  moved : Member

/-- Moves a member next to a member of another listing, under the path of its new container. -/
def Listing.moveBeside (source destination : Listing) (moved target : Id) (side : Side)
    (path : Path) : Except Absence Transfer :=
  match source.remove moved with
  | .error absence => .error absence
  | .ok (rest, member) =>
    let ordered := Ordered.sorted destination.members
    match landingIndex? ordered target side with
    | none => .error (.notAmong target destination.container)
    | some index =>
      .ok {
        source := rest
        destination := Ordered.insertAt ordered (member.rebased path) index
        moved := member }

/-- Moves a member to the end of another list, under the path of its new container. -/
def Listing.moveLast (source : Listing) (destination : Forest) (moved : Id) (path : Path) :
    Except Absence Transfer :=
  match source.remove moved with
  | .error absence => .error absence
  | .ok (rest, member) =>
    .ok {
      source := rest
      destination := Ordered.append destination (member.rebased path)
      moved := member }

/-- Moves a root next to another. -/
def reorderRoots (roots : List Root) (moved target : Id) (side : Side) :
    Except Absence (List Root) :=
  reorder .noRoot roots moved target side

end Outline

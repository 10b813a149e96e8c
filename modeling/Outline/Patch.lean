import Outline.Absence
import Outline.Lookup

/-!
# Patching a workspace

A computed list of members or roots takes the place of the present one.  Only the list itself is
taken from what was computed: members and roots that were there already keep what stands below
them, so two patches of nested containers may be applied in either order.
-/

namespace Outline

/-- The last member of the list that is called `id`. -/
def Forest.last? (ms : Forest) (id : Id) : Option Member :=
  ms.reverse.find? (·.id = id)

/-- The members of `after`.  Each one listed in `present` keeps its children from there, under its
new path; a second mention of it, like a member not listed there, comes as given. -/
def Forest.patched (present : Forest) : (after : Forest) → Forest
  | [] => []
  | m :: ms =>
    match Forest.last? present m.id with
    | some old =>
      { m with children := Forest.rebased old.children m.path } ::
        Forest.patched (present.filter (·.id ≠ m.id)) ms
    | none => m :: Forest.patched present ms

/-- The roots that no later root repeats. -/
def lastRoots : List Root → List Root
  | [] => []
  | r :: rs => if rs.any (·.id = r.id) then lastRoots rs else r :: lastRoots rs

/-- The present roots in the places that `after` lists and with the numbers it gives, then those
it does not list, by number. -/
def patchedRoots (present : List Root) : (after : List Root) → List Root
  | [] => Ordered.sorted present
  | slot :: slots =>
    match present.find? (·.id = slot.id) with
    | some root =>
      { root with order := slot.order } :: patchedRoots (present.filter (·.id ≠ slot.id)) slots
    | none => patchedRoots present slots

namespace Workspace

/-- Replaces the list of members that a container owns. -/
def patch (w : Workspace) (container : Container) (after : Forest) : Except Absence Workspace :=
  match w.focus? container with
  | some list => .ok (list.replace (Forest.patched list.part after))
  | none => .error (.noContainer container)

/-- Replaces the list of roots, which keep their names, shapes and members. -/
def patchRoots (w : Workspace) (after : List Root) : Except Absence Workspace :=
  match after.find? fun slot => (w.root? slot.id).isNone with
  | some slot => .error (.noRoot slot.id)
  | none => .ok ⟨patchedRoots (lastRoots w.roots) after⟩

end Workspace

end Outline

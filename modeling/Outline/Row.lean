import Outline.Workspace

/-!
# Rows

A workspace seen as a table: one row for each member, with the container that lists it.
-/

namespace Outline

/-- A member and its container, without its children. -/
structure Row where
  id : Id
  parent : Container
  name : String
  kind : Kind
  order : Nat
  path : Path
  deriving DecidableEq, Inhabited

mutual

/-- The rows of a member that `parent` lists and of all below it, each before its children. -/
def Member.rows : Member → (parent : Container) → List Row
  | ⟨id, name, order, kind, path, children⟩, parent =>
    { id, parent, name, kind, order, path } ::
      Forest.rows children (.ofNode parent.root id)

/-- The rows of the forest that `parent` owns. -/
def Forest.rows : List Member → (parent : Container) → List Row
  | [], _ => []
  | m :: ms, parent => m.rows parent ++ Forest.rows ms parent

end

/-- The rows of all members of the workspace. -/
def Workspace.rows (w : Workspace) : List Row :=
  w.roots.flatMap fun root => Forest.rows root.members root.container

/-- The last row of the table for `id`. -/
def rowOf? (table : List Row) (id : Id) : Option Row :=
  table.reverse.find? (·.id = id)

mutual

theorem Member.map_id_rows : ∀ (m : Member) (parent : Container),
    (m.rows parent).map Row.id = m.ids
  | ⟨_, _, _, _, _, children⟩, parent => by
    simp [Member.rows, Member.ids, Member.subtree, Forest.map_id_rows children, Forest.ids]

/-- There is a row for every member. -/
theorem Forest.map_id_rows : ∀ (ms : List Member) (parent : Container),
    (Forest.rows ms parent).map Row.id = Forest.ids ms
  | [], _ => rfl
  | m :: ms, parent => by
    simp [Forest.rows, Forest.ids, Forest.subtrees, Member.map_id_rows m, Member.ids,
      Forest.map_id_rows ms]

end

end Outline

import Mathlib.Data.List.Infix
import Outline.Proofs.Searches

/-!
# Moved paths

Paths that are derived anew below another path keep their last names and have other first ones.  So
the rows of a forest that goes elsewhere can be told from the rows that it has
(`Outline.Forest.rows_rebased_moved`).
-/

namespace Outline

namespace Path

variable (path old new : Path)

/-- The path once what has been at `old` is at `new`. -/
def moved : Path where
  segments := new.segments ++ path.segments.drop old.segments.length

/-- The path with another name at the depth, which is counted from zero. -/
def renamedAt (depth : Nat) (name : String) : Path where
  segments := path.segments.set depth name

@[simp] theorem moved_self : old.moved old new = new := by
  simp only [moved, List.drop_length, List.append_nil]

variable {path old}

theorem moved_child (long : old.segments.length ≤ path.segments.length) (name : String) :
    (path.child name).moved old new = (path.moved old new).child name := by
  simp only [moved, child, List.drop_append_of_le_length long, List.append_assoc]

/-- Where a path begins with another one, moving it changes nothing just if that one stays. -/
theorem moved_eq_self_iff {new : Path} (begins : old.segments <+: path.segments) :
    path.moved old new = path ↔ new = old := by
  obtain ⟨segments⟩ := path
  obtain ⟨rest, rfl⟩ : old.segments <+: segments := begins
  rw [moved, List.drop_left]
  constructor
  · intro same
    have front := List.append_cancel_right (congrArg Path.segments same)
    cases new
    cases old
    exact congrArg Path.mk front
  · intro same
    rw [same]

/-- To rename a path at a depth above its end is to move what it begins with. -/
theorem moved_renamedAt {depth : Nat} (begins : old.segments <+: path.segments)
    (deep : depth < old.segments.length) (name : String) :
    path.moved old (old.renamedAt depth name) = path.renamedAt depth name := by
  obtain ⟨rest, whole⟩ := begins
  rw [moved, renamedAt, renamedAt, ← whole, List.drop_left, List.set_append_left _ _ deep]

end Path

namespace Forest

variable {ms : Forest} {parent : Path} {owner : Container} {row : Row}

/-- The paths in a forest begin with the one from which they derive. -/
theorem path_begins (consistent : Consistent ms parent) (inside : row ∈ rows ms owner) :
    parent.segments <+: row.path.segments := by
  induction ms using Forest.induct generalizing parent owner with
  | nil => exact absurd inside List.not_mem_nil
  | cons m ms inner later =>
      obtain ⟨path, below, after⟩ := consistent_cons.1 consistent
      have begins : parent.segments <+: (parent.child m.name).segments :=
        List.prefix_append parent.segments [m.name]
      rw [rows_cons] at inside
      rcases List.mem_cons.1 inside with rfl | inside
      · change parent.segments <+: m.path.segments
        rwa [path]
      · rcases List.mem_append.1 inside with deeper | listed
        · exact begins.trans (inner below deeper)
        · exact later after listed

/-- What stands in a forest belongs to the root of its container. -/
theorem root_of_mem_rows (inside : row ∈ rows ms owner) : row.parent.root = owner.root := by
  rcases parent_of_mem_rows inside with own | ⟨node, -, own⟩
  · rw [own]
  · rw [own]
    rfl

end Forest

/-- The row once what has been at the path `old` is at `new`, in the given root. -/
def Row.carried (row : Row) (root : Id) (old new : Path) : Row :=
  { row with
    parent := { row.parent with root }
    path := row.path.moved old new }

namespace Forest

/-- The rows of a forest whose paths are derived anew, in whatever root. -/
theorem rows_rebased_moved {ms : Forest} {parent old : Path} (consistent : Consistent ms parent)
    (long : old.segments.length ≤ parent.segments.length) (new : Path) (root root' : Id)
    (node : Option Id) : rows (rebased ms (parent.moved old new)) ⟨root', node⟩ =
      (rows ms ⟨root, node⟩).map (·.carried root' old new) := by
  induction ms using Forest.induct generalizing parent node with
  | nil => rfl
  | cons m ms inner later =>
      obtain ⟨path, below, after⟩ := consistent_cons.1 consistent
      have own := Path.moved_child new long m.name
      have deeper : old.segments.length ≤ (parent.child m.name).segments.length :=
        Nat.le_trans long (List.prefix_append parent.segments [m.name]).length_le
      rw [rebased, rows_cons, rows_cons, List.map_cons, List.map_append, later after long,
        Member.children_rebased, ← own, Member.id_rebased]
      refine congrArg₂ List.cons ?_ (congrArg (· ++ _) (inner below deeper (some m.id)))
      rw [Member.rebased_eq, ← own, ← path]
      rfl

/-- The rows of a forest show what its members do, one by one. -/
theorem map_rows_eq {β : Type} {f : Row → β} {g : Member → β}
    (same : ∀ (m : Member) parent, f (m.row parent) = g m) (ms : Forest) (owner : Container) :
    (rows ms owner).map f = (subtrees ms).map g := by
  induction ms using Forest.induct generalizing owner with
  | nil => rfl
  | cons m ms inner later =>
      rw [rows_cons, subtrees_cons, List.map_cons, List.map_cons, List.map_append, List.map_append,
        same, inner, later]

end Forest

namespace Workspace

/-- A list stands as deep as its path is long. -/
theorem Owns.length_path {w : Workspace} {site : Site} {owner : Kind} {ms : Forest}
    (owns : w.Owns site owner ms) : site.path.segments.length = site.depth := by
  induction owns with
  | root listed => rfl
  | member owned listed ih =>
      rw [Site.below, Path.child, List.length_append, ih]
      rfl

end Workspace

end Outline

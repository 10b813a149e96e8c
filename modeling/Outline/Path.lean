/-!
# Paths

A member's path lists the names from just below its root down to its own.  The root itself adds no
name, so the path of a root is empty.
-/

namespace Outline

/-- Names from below a root down to a member. -/
structure Path where
  segments : List String
  deriving DecidableEq, Inhabited

namespace Path

/-- The path of a root. -/
def root : Path where
  segments := []

/-- The path of the child called `name`. -/
def child (path : Path) (name : String) : Path where
  segments := path.segments ++ [name]

/-- The path without its last name; the path of a root stays empty. -/
def parent (path : Path) : Path where
  segments := path.segments.dropLast

/-- The last name, if there is one. -/
def name? (path : Path) : Option String :=
  path.segments.getLast?

/-- The names joined by slashes. -/
def text (path : Path) : String :=
  "/".intercalate path.segments

@[simp] theorem parent_child (path : Path) (name : String) : (path.child name).parent = path := by
  simp [child, parent]

@[simp] theorem name?_child (path : Path) (name : String) :
    (path.child name).name? = some name := by
  simp [child, name?]

end Path

end Outline

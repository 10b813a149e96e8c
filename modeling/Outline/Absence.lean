import Outline.Workspace

/-!
# Absences

An operation that names something a workspace does not hold stops before anything is changed.
-/

namespace Outline

/-- What an operation names and a workspace does not hold. -/
inductive Absence where
  | noContainer (container : Container)
  | notAmong (member : Id) (container : Container)
  | noMember (member : Id)
  | noRoot (root : Id)
  deriving DecidableEq

/-- The text of an absence. -/
def Absence.message : Absence → String
  | .noContainer container => s!"container {container.text} not found in snapshot"
  | .notAmong member container => s!"member {member.text} not found in container {container.text}"
  | .noMember member => s!"member {member.text} not found in snapshot"
  | .noRoot root => s!"root {root.text} not found in snapshot"

end Outline

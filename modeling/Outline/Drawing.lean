import Outline.Workspace

/-!
# Drawings

A workspace as text: a line for each root and, below it, a line for each member with its number,
drawn as a tree.
-/

namespace Outline

/-- The mark of a kind. -/
def Kind.mark : Kind → String
  | .interior => "▸"
  | .leaf => "•"

/-- The identifier at the end of a line, if identifiers are shown. -/
def idSuffix (showIds : Bool) (id : Id) : String :=
  if showIds then "  " ++ id.text else ""

/-- What leads to the last and to any other member of a list. -/
def branch (last : Bool) : String :=
  if last then "└── " else "├── "

/-- What stands before everything below the last and below any other member of a list. -/
def continuation (last : Bool) : String :=
  if last then "    " else "│   "

mutual

/-- The lines of a member and all below it, each after `margin`. -/
def Member.lines : Member → (showIds last : Bool) → (margin : String) → List String
  | ⟨id, name, order, kind, _, children⟩, showIds, last, margin =>
    (margin ++ branch last ++ toString order ++ " " ++ kind.mark ++ " " ++ name ++
      idSuffix showIds id) ::
    Forest.lines children showIds (margin ++ continuation last)

/-- The lines of a forest, each after `margin`. -/
def Forest.lines : List Member → (showIds : Bool) → (margin : String) → List String
  | [], _, _ => []
  | m :: ms, showIds, margin =>
    m.lines showIds ms.isEmpty margin ++ Forest.lines ms showIds margin

end

/-- The line of a root and the lines of its members. -/
def Root.lines (root : Root) (showIds : Bool) : List String :=
  (root.name ++ " [" ++ root.shape.text ++ "]" ++ idSuffix showIds root.id) ::
    Forest.lines root.members showIds ""

/-- Lines as text, each with its newline. -/
def unlines (lines : List String) : String :=
  String.join (lines.map (· ++ "\n"))

/-- The drawing of a root. -/
def Root.draw (root : Root) (showIds : Bool) : String :=
  unlines (root.lines showIds)

/-- The drawing of every root. -/
def Workspace.draw (w : Workspace) (showIds : Bool) : String :=
  unlines (w.roots.flatMap fun root => root.lines showIds)

mutual

theorem Member.length_lines : ∀ (m : Member) (showIds last : Bool) (margin : String),
    (m.lines showIds last margin).length = m.subtree.length
  | ⟨_, _, _, _, _, children⟩, showIds, last, margin => by
    simp [Member.lines, Member.subtree, Forest.length_lines children]

/-- There is a line for every member. -/
theorem Forest.length_lines : ∀ (ms : List Member) (showIds : Bool) (margin : String),
    (Forest.lines ms showIds margin).length = (Forest.subtrees ms).length
  | [], _, _ => rfl
  | m :: ms, showIds, margin => by
    simp [Forest.lines, Forest.subtrees, Member.length_lines m, Forest.length_lines ms]

end

/-- There is a line for the root and one for every member. -/
theorem Root.length_lines (root : Root) (showIds : Bool) :
    (root.lines showIds).length = (Forest.subtrees root.members).length + 1 := by
  simp [Root.lines, Forest.length_lines]

end Outline

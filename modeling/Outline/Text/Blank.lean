import Outline.Text.Ranges

/-!
# Blank text

Text that holds nothing but white space names nothing.
-/

namespace Outline.Text

/-- The property White_Space. -/
def whiteSpace : Ranges where
  spans := [
    (0x0009, 0x000D), (0x0020, 0x0020), (0x0085, 0x0085), (0x00A0, 0x00A0), (0x1680, 0x1680),
    (0x2000, 0x200A), (0x2028, 0x2029), (0x202F, 0x202F), (0x205F, 0x205F), (0x3000, 0x3000)]

/-- Whether the text is empty once white space is trimmed from both ends. -/
def isBlank (s : String) : Bool :=
  s.toList.all whiteSpace.contains

theorem isBlank_eq_false_iff {s : String} :
    isBlank s = false ↔ ∃ c ∈ s.toList, whiteSpace.contains c = false := by
  simp [isBlank]

end Outline.Text

/-!
# Sets of characters given by ranges

A character property is listed as closed ranges of code points.  Membership is a plain search, which
is all the tables need: only characters beyond ASCII reach them.
-/

namespace Outline.Text

/-- A set of characters, listed as closed ranges of code points in increasing order. -/
structure Ranges where
  spans : List (Nat × Nat)

/-- Whether some listed range holds the character's code point. -/
def Ranges.contains (ranges : Ranges) (c : Char) : Bool :=
  ranges.spans.any fun span => span.1 ≤ c.toNat && c.toNat ≤ span.2

theorem Ranges.contains_iff {ranges : Ranges} {c : Char} :
    ranges.contains c = true ↔ ∃ span ∈ ranges.spans, span.1 ≤ c.toNat ∧ c.toNat ≤ span.2 := by
  simp [Ranges.contains]

end Outline.Text

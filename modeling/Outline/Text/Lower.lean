import Outline.Text.CaseTable

/-!
# Lower case

Full lower-casing of text: every character has its mapping, `İ` becomes two characters, and a
capital sigma at the end of a word becomes the final form.
-/

namespace Outline.Text

/-- The simple lower-case form of a character. -/
def lowerChar (c : Char) : Char :=
  if c.toNat < 0x80 then
    c.toLower
  else
    match lowerRuns.findSome? (·.lower? c.toNat) with
    | some code => Char.ofNat code
    | none => c

/-- Whether a word goes on: the first character that is not case-ignorable is cased. -/
def continuesWord (cs : List Char) : Bool :=
  match cs.dropWhile caseIgnorable.contains with
  | [] => false
  | c :: _ => cased.contains c

/-- The lower-case form of the characters that follow `before`, which is given in reverse. -/
def lowerFrom (before : List Char) : List Char → List Char
  | [] => []
  | c :: rest =>
    let lowered :=
      if c = '\u0130' then ['i', '\u0307']
      else if c = '\u03A3' then
        [if continuesWord before && !continuesWord rest then '\u03C2' else '\u03C3']
      else [lowerChar c]
    lowered ++ lowerFrom (c :: before) rest

/-- The text in lower case. -/
def lower (s : String) : String :=
  String.ofList (lowerFrom [] s.toList)

end Outline.Text

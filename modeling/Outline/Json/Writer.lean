import Outline.Json
import Outline.Text.Hex

/-!
# Writing JSON

The compact form without any white space, and the form indented by two spaces.  Strings escape
what has to be escaped and nothing else.
-/

namespace Outline.Json

/-- How a character stands in a string literal. -/
def escape (c : Char) : List Char :=
  match c with
  | '"' => ['\\', '"']
  | '\\' => ['\\', '\\']
  | '\x08' => ['\\', 'b']
  | '\x0c' => ['\\', 'f']
  | '\n' => ['\\', 'n']
  | '\r' => ['\\', 'r']
  | '\t' => ['\\', 't']
  | _ => if c.toNat < 0x20 then ['\\', 'u'] ++ Text.Hex.write 4 c.toNat else [c]

/-- A text as a string literal. -/
def literal (s : String) : List Char :=
  '"' :: s.toList.flatMap escape ++ ['"']

mutual

/-- The compact form. -/
def chars : Json → List Char
  | .null => "null".toList
  | .bool true => "true".toList
  | .bool false => "false".toList
  | .int n => (toString n).toList
  | .real written => written.toList
  | .str s => literal s
  | .garbled => "\"\\ud800\"".toList
  | .arr elements => '[' :: elementChars elements ++ [']']
  | .obj entries => '\x7b' :: entryChars entries ++ ['\x7d']

/-- The compact forms of elements, with commas between them. -/
def elementChars : List Json → List Char
  | [] => []
  | [value] => value.chars
  | value :: next :: rest => value.chars ++ ',' :: elementChars (next :: rest)

/-- The compact forms of entries, with commas between them. -/
def entryChars : List (String × Json) → List Char
  | [] => []
  | [(key, value)] => literal key ++ ':' :: value.chars
  | (key, value) :: next :: rest =>
    literal key ++ ':' :: value.chars ++ ',' :: entryChars (next :: rest)

end

/-- The compact text of a value. -/
def text (value : Json) : String :=
  String.ofList value.chars

/-- The beginning of a line at a level of nesting. -/
def newline (level : Nat) : List Char :=
  '\n' :: List.replicate (2 * level) ' '

mutual

/-- The indented form of a value that stands at a level of nesting. -/
def indented : Json → (level : Nat) → List Char
  | .arr (value :: rest), level =>
    '[' :: indentedElements (value :: rest) (level + 1) ++ newline level ++ [']']
  | .obj (entry :: rest), level =>
    '\x7b' :: indentedEntries (entry :: rest) (level + 1) ++ newline level ++ ['\x7d']
  | value, _ => value.chars

/-- The indented forms of elements, each on a line of its own. -/
def indentedElements : List Json → (level : Nat) → List Char
  | [], _ => []
  | [value], level => newline level ++ value.indented level
  | value :: next :: rest, level =>
    newline level ++ value.indented level ++ ',' :: indentedElements (next :: rest) level

/-- The indented forms of entries, each on a line of its own. -/
def indentedEntries : List (String × Json) → (level : Nat) → List Char
  | [], _ => []
  | [(key, value)], level => newline level ++ literal key ++ ':' :: ' ' :: value.indented level
  | (key, value) :: next :: rest, level =>
    newline level ++ literal key ++ ':' :: ' ' :: value.indented level ++
      ',' :: indentedEntries (next :: rest) level

end

/-- The text of a value indented by two spaces. -/
def indentedText (value : Json) : String :=
  String.ofList (value.indented 0)

end Outline.Json

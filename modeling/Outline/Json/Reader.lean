import Outline.Json
import Outline.Text.Hex

/-!
# Reading JSON

A text is read strictly: one value, with white space around it and nothing else.  The nesting of a
value is bounded by the length of its text, which is what the recursion counts down.
-/

namespace Outline.Json

/-- Drops white space. -/
def skipBlank (cs : List Char) : List Char :=
  cs.dropWhile fun c => c = ' ' || c = '\n' || c = '\r' || c = '\t'

/-- A part of a string literal: a character, or a UTF-16 unit given by its number. -/
inductive Piece where
  | char (c : Char)
  | unit (number : Nat)

/-- The character that a backslash and a letter stand for. -/
def shortEscape? (c : Char) : Option Char :=
  match c with
  | '"' => some '"'
  | '\\' => some '\\'
  | '/' => some '/'
  | 'b' => some '\x08'
  | 'f' => some '\x0c'
  | 'n' => some '\n'
  | 'r' => some '\r'
  | 't' => some '\t'
  | _ => none

/-- Reads the pieces of a string literal up to its closing quote. -/
def pieces? : List Char → Option (List Piece × List Char)
  | [] => none
  | c :: rest =>
    if c = '"' then
      some ([], rest)
    else if c = '\\' then
      match rest with
      | 'u' :: a :: b :: c :: d :: rest => do
        let number ← Text.Hex.read? [a, b, c, d]
        let (more, rest) ← pieces? rest
        return (.unit number :: more, rest)
      | e :: rest => do
        let c ← shortEscape? e
        let (more, rest) ← pieces? rest
        return (.char c :: more, rest)
      | [] => none
    else if c.toNat < 0x20 then
      none
    else do
      let (more, rest) ← pieces? rest
      return (.char c :: more, rest)

/-- The text that pieces spell; a surrogate has to be followed or preceded by its other half. -/
def join? : List Piece → Option (List Char)
  | [] => some []
  | .char c :: rest => (join? rest).map (c :: ·)
  | .unit high :: .unit low :: rest =>
    if 0xD800 ≤ high ∧ high < 0xDC00 ∧ 0xDC00 ≤ low ∧ low < 0xE000 then
      (join? rest).map (Char.ofNat (0x10000 + (high - 0xD800) * 0x400 + (low - 0xDC00)) :: ·)
    else if 0xD800 ≤ high ∧ high < 0xE000 then
      none
    else
      (join? (.unit low :: rest)).map (Char.ofNat high :: ·)
  | .unit number :: rest =>
    if 0xD800 ≤ number ∧ number < 0xE000 then none
    else (join? rest).map (Char.ofNat number :: ·)

/-- Reads what follows the opening quote of a string literal; the text is `none` if it is
garbled. -/
def string? (cs : List Char) : Option (Option String × List Char) :=
  (pieces? cs).map fun (pieces, rest) => ((join? pieces).map String.ofList, rest)

/-- Reads one or more digits. -/
def digits? (cs : List Char) : Option (List Char × List Char) :=
  if (cs.takeWhile Char.isDigit).isEmpty then none
  else some (cs.takeWhile Char.isDigit, cs.dropWhile Char.isDigit)

/-- Reads a point and digits, if there is a point. -/
def fraction? : List Char → Option (List Char × List Char)
  | '.' :: rest => (digits? rest).map fun (ds, rest) => ('.' :: ds, rest)
  | cs => some ([], cs)

/-- Reads an exponent, if there is one. -/
def exponent? : List Char → Option (List Char × List Char)
  | e :: rest =>
    if e = 'e' ∨ e = 'E' then
      match rest with
      | s :: tail =>
        if s = '+' ∨ s = '-' then (digits? tail).map fun (ds, rest) => (e :: s :: ds, rest)
        else (digits? rest).map fun (ds, rest) => (e :: ds, rest)
      | [] => none
    else
      some ([], e :: rest)
  | [] => some ([], [])

/-- The value of a number: an integer if it is written as one, fits 64 bits and is not `-0`. -/
def ofNumber (negative : Bool) (whole tail : List Char) : Json :=
  let magnitude := whole.foldl (fun n c => n * 10 + (c.toNat - '0'.toNat)) 0
  let value : Int := if negative then -magnitude else magnitude
  if tail.isEmpty ∧ -(Nat.pow 2 63 : Int) ≤ value ∧ value < (Nat.pow 2 64 : Int) ∧
      ¬(negative ∧ magnitude = 0) then
    .int value
  else
    .real (String.ofList ((if negative then ['-'] else []) ++ whole ++ tail))

/-- Reads a number after its sign. -/
def unsigned? (negative : Bool) (cs : List Char) : Option (Json × List Char) := do
  let (whole, rest) ← digits? cs
  if whole.length > 1 ∧ whole.head? = some '0' then none
  let (fraction, rest) ← fraction? rest
  let (exponent, rest) ← exponent? rest
  return (ofNumber negative whole (fraction ++ exponent), rest)

/-- Reads a word that stands for a value. -/
def word? (word : String) (value : Json) (cs : List Char) : Option (Json × List Char) :=
  if word.toList.isPrefixOf cs then some (value, cs.drop word.toList.length) else none

/-- Reads a value that is neither an array nor an object. -/
def scalar? (cs : List Char) : Option (Json × List Char) :=
  match cs with
  | '"' :: rest => (string? rest).map fun (s, rest) => (s.elim .garbled .str, rest)
  | 'n' :: _ => word? "null" .null cs
  | 't' :: _ => word? "true" (.bool true) cs
  | 'f' :: _ => word? "false" (.bool false) cs
  | '-' :: rest => unsigned? true rest
  | _ => unsigned? false cs

/-- The object with the given entries, garbled if a key is. -/
def ofEntries (entries : List (Option String × Json)) : Json :=
  match entries.mapM fun entry => entry.1.map (·, entry.2) with
  | some entries => .obj entries
  | none => .garbled

mutual

/-- Reads a value. -/
def value? : Nat → List Char → Option (Json × List Char)
  | 0, _ => none
  | fuel + 1, cs =>
    match skipBlank cs with
    | '[' :: rest =>
      match skipBlank rest with
      | ']' :: rest => some (.arr [], rest)
      | rest => (elements? fuel rest).map fun (values, rest) => (.arr values, rest)
    | '\x7b' :: rest =>
      match skipBlank rest with
      | '\x7d' :: rest => some (.obj [], rest)
      | rest => (entries? fuel rest).map fun (entries, rest) => (ofEntries entries, rest)
    | rest => scalar? rest

/-- Reads one or more elements and the bracket that closes them. -/
def elements? : Nat → List Char → Option (List Json × List Char)
  | 0, _ => none
  | fuel + 1, cs => do
    let (value, rest) ← value? fuel cs
    match skipBlank rest with
    | ',' :: rest =>
      let (more, rest) ← elements? fuel rest
      return (value :: more, rest)
    | ']' :: rest => return ([value], rest)
    | _ => none

/-- Reads one or more entries and the brace that closes them. -/
def entries? : Nat → List Char → Option (List (Option String × Json) × List Char)
  | 0, _ => none
  | fuel + 1, cs => do
    let '"' :: rest := skipBlank cs | none
    let (key, rest) ← string? rest
    let ':' :: rest := skipBlank rest | none
    let (value, rest) ← value? fuel rest
    match skipBlank rest with
    | ',' :: rest =>
      let (more, rest) ← entries? fuel rest
      return ((key, value) :: more, rest)
    | '\x7d' :: rest => return ([(key, value)], rest)
    | _ => none

end

/-- The value that a text spells. -/
def ofText? (s : String) : Option Json := do
  let (value, rest) ← value? (s.toList.length + 1) s.toList
  if (skipBlank rest).isEmpty then some value else none

end Outline.Json

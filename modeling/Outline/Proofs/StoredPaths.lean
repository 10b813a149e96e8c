import Outline.Store.Statement
import Outline.Json.Reader

/-!
# Stored paths

A path is kept in a row as the JSON text of its names.  Whatever characters the names are made of,
reading the text gives the path back (`Outline.Store.ofJson?_pathText`).
-/

namespace Outline

namespace Json

/-- A control character stands for itself, whatever follows it. -/
theorem join?_unit {number : Nat} (small : number < 0xD800) (more : List Piece) :
    join? (.unit number :: more) = (join? more).map (Char.ofNat number :: ·) := by
  have apart : ¬(0xD800 ≤ number ∧ number < 0xE000) := by omega
  cases more with
  | nil => exact (join?.eq_4 _ _ fun _ _ same => by cases same).trans (if_neg apart)
  | cons piece more =>
      cases piece with
      | char c => exact (join?.eq_4 _ _ fun _ _ same => by cases same).trans (if_neg apart)
      | unit low => rw [join?.eq_3, if_neg (by omega), if_neg apart]

/-- A short escape is read as the character that it stands for. -/
theorem pieces?_shortEscape {letter c : Char} (stands : shortEscape? letter = some c)
    (rest : List Char) : pieces? ('\\' :: letter :: rest) =
      (pieces? rest).map fun (more, rest) => (.char c :: more, rest) := by
  have other : letter ≠ 'u' := by
    rintro rfl
    cases stands
  rw [pieces?.eq_3 _ _ _ fun _ _ _ _ _ same _ => other same, if_neg (by decide), if_pos rfl, stands]
  cases pieces? rest <;> rfl

/-- An escaped number is read as the number. -/
theorem pieces?_unit {number : Nat} (fits : number < Nat.pow 16 4) (rest : List Char) :
    pieces? (['\\', 'u'] ++ Text.Hex.write 4 number ++ rest) =
      (pieces? rest).map fun (more, rest) => (.unit number :: more, rest) := by
  have reads := Text.Hex.read?_write fits
  obtain ⟨a, b, c, d, digits⟩ : ∃ a b c d, Text.Hex.write 4 number = [a, b, c, d] :=
    ⟨_, _, _, _, rfl⟩
  rw [digits] at reads ⊢
  change pieces? ('\\' :: 'u' :: a :: b :: c :: d :: rest) = _
  rw [pieces?.eq_2, if_neg (by decide), if_pos rfl, reads]
  cases pieces? rest <;> rfl

/-- Each character of a text is read back from its place in a string literal. -/
theorem exists_piece (c : Char) : ∃ piece,
    (∀ rest, pieces? (escape c ++ rest) =
      (pieces? rest).map fun (more, rest) => (piece :: more, rest)) ∧
    ∀ more, join? (piece :: more) = (join? more).map (c :: ·) := by
  have joins : ∀ more, join? (.char c :: more) = (join? more).map (c :: ·) := fun more => by
    rw [join?]
  unfold escape
  split
  · exact ⟨_, pieces?_shortEscape rfl, joins⟩
  · exact ⟨_, pieces?_shortEscape rfl, joins⟩
  · exact ⟨_, pieces?_shortEscape rfl, joins⟩
  · exact ⟨_, pieces?_shortEscape rfl, joins⟩
  · exact ⟨_, pieces?_shortEscape rfl, joins⟩
  · exact ⟨_, pieces?_shortEscape rfl, joins⟩
  · exact ⟨_, pieces?_shortEscape rfl, joins⟩
  · next quote backslash _ _ _ _ _ =>
      by_cases control : c.toNat < 0x20
      · rw [if_pos control]
        have fits : c.toNat < Nat.pow 16 4 := Nat.lt_trans control (by decide)
        refine ⟨.unit c.toNat, pieces?_unit fits, fun more => ?_⟩
        rw [join?_unit (by omega), Char.ofNat_toNat]
      · rw [if_neg control]
        refine ⟨.char c, fun rest => ?_, joins⟩
        rw [List.singleton_append, pieces?.eq_def]
        dsimp only
        rw [if_neg quote, if_neg backslash, if_neg control]
        cases pieces? rest <;> rfl

/-- The characters of a text are read back from its string literal. -/
theorem exists_pieces (cs rest : List Char) : ∃ ps,
    pieces? (cs.flatMap escape ++ '"' :: rest) = some (ps, rest) ∧ join? ps = some cs := by
  induction cs with
  | nil => exact ⟨[], by rw [List.flatMap_nil, List.nil_append, pieces?.eq_def]; rfl, by rw [join?]⟩
  | cons c cs ih =>
      obtain ⟨ps, reads, joins⟩ := ih
      obtain ⟨piece, read, join⟩ := exists_piece c
      refine ⟨piece :: ps, ?_, ?_⟩
      · rw [List.flatMap_cons, List.append_assoc, read, reads]
        rfl
      · rw [join, joins]
        rfl

theorem value?_quote (fuel : Nat) (cs : List Char) : value? (fuel + 1) ('"' :: cs) =
    (string? cs).map fun (s, rest) => (s.elim .garbled .str, rest) := by
  rw [value?]
  rfl

theorem value?_bracket (fuel : Nat) (cs : List Char) : value? (fuel + 1) ('[' :: '"' :: cs) =
    (elements? fuel ('"' :: cs)).map fun (values, rest) => (.arr values, rest) := by
  rw [value?]
  rfl

theorem elements?_comma {fuel : Nat} {cs rest : List Char} {value : Json}
    (first : value? fuel cs = some (value, ',' :: rest)) : elements? (fuel + 1) cs =
      (elements? fuel rest).map fun (more, rest) => (value :: more, rest) := by
  rw [elements?, first]
  change (elements? fuel rest).bind _ = _
  cases elements? fuel rest <;> rfl

theorem elements?_close {fuel : Nat} {cs rest : List Char} {value : Json}
    (first : value? fuel cs = some (value, ']' :: rest)) :
    elements? (fuel + 1) cs = some ([value], rest) := by
  rw [elements?, first]
  rfl

theorem elementChars_cons (value next : Json) (rest : List Json) :
    elementChars (value :: next :: rest) = value.chars ++ ',' :: elementChars (next :: rest) := rfl

/-- A string literal is read back, whatever follows it. -/
theorem value?_literal (fuel : Nat) (s : String) (rest : List Char) :
    value? (fuel + 1) (literal s ++ rest) = some (.str s, rest) := by
  obtain ⟨ps, reads, joins⟩ := exists_pieces s.toList rest
  have text : literal s ++ rest = '"' :: (s.toList.flatMap escape ++ '"' :: rest) := by
    simp only [literal, List.cons_append, List.append_assoc, List.nil_append]
  rw [text, value?_quote, string?, reads]
  simp only [Option.map_some, joins, Option.elim_some, String.ofList_toList]

/-- Texts separated by commas are read back, up to the bracket that closes them. -/
theorem elements?_elementChars (fuel : Nat) (x : String) (xs : List String) (rest : List Char)
    (enough : xs.length + 1 < fuel) :
    elements? fuel (elementChars ((x :: xs).map .str) ++ ']' :: rest) =
      some ((x :: xs).map .str, rest) := by
  induction xs generalizing fuel x with
  | nil =>
      rw [List.length_nil] at enough
      obtain ⟨fuel, rfl⟩ := Nat.exists_eq_add_of_le' enough
      exact elements?_close (value?_literal fuel x (']' :: rest))
  | cons y ys ih =>
      rw [List.length_cons] at enough
      obtain ⟨fuel, rfl⟩ : ∃ n, fuel = n + 2 := ⟨fuel - 2, by omega⟩
      have split : elementChars ((x :: y :: ys).map .str) ++ ']' :: rest =
          literal x ++ ',' :: (elementChars ((y :: ys).map .str) ++ ']' :: rest) := by
        rw [List.map_cons, List.map_cons, elementChars_cons, List.append_assoc, List.cons_append]
        rfl
      rw [split, elements?_comma (value?_literal fuel x _), ih (fuel + 1) y (by omega)]
      rfl

theorem length_le_elementChars (xs : List String) :
    xs.length ≤ (elementChars (xs.map .str)).length := by
  induction xs with
  | nil => exact Nat.zero_le _
  | cons x xs ih =>
      cases xs with
      | nil => exact Nat.succ_le_succ (Nat.zero_le _)
      | cons y ys =>
          rw [List.map_cons] at ih
          rw [List.map_cons, List.map_cons, elementChars_cons, List.length_append]
          simp only [List.length_cons] at ih ⊢
          omega

/-- A list of texts is read back from its compact text. -/
theorem ofText?_ofList_str (xs : List String) :
    ofText? (ofList .str xs).text = some (ofList .str xs) := by
  have text : (ofList .str xs).text.toList = '[' :: (elementChars (xs.map .str) ++ [']']) := by
    rw [Json.text, String.toList_ofList]
    rfl
  have reads : value? ((ofList .str xs).text.toList.length + 1) (ofList .str xs).text.toList =
      some (ofList .str xs, []) := by
    rw [text]
    cases xs with
    | nil => rfl
    | cons x xs =>
        have long := length_le_elementChars (x :: xs)
        rw [List.length_cons] at long
        have opens : ∃ cs, elementChars ((x :: xs).map .str) ++ [']'] = '"' :: cs := by
          cases xs <;> exact ⟨_, rfl⟩
        obtain ⟨cs, opens⟩ := opens
        have elements := elements?_elementChars ('"' :: cs).length.succ x xs []
          (by rw [← opens, List.length_append, List.length_singleton]; omega)
        rw [opens] at elements ⊢
        rw [List.length_cons, value?_bracket, elements]
        rfl
  rw [ofText?, reads]
  rfl

end Json

namespace Store

/-- The path kept in a row is read back. -/
theorem ofJson?_pathText (path : Path) :
    (Json.ofText? (pathText path)).bind Path.ofJson? = some path := by
  rw [pathText, Path.toJson, Json.ofText?_ofList_str, Option.bind_some, Path.ofJson?,
    @Json.list?_ofList _ Json.text? _ _ fun _ _ => rfl]
  rfl

end Store

end Outline

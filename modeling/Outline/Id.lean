import Outline.Text.Hex

/-!
# Identifiers

Roots and members are known by 128-bit identifiers.  `Id.text` is the one canonical way to write an
identifier; `Id.ofText?` also reads the other usual ways.  `Id.ofText?_text` says that reading the
canonical text gives the identifier back.
-/

namespace Outline

/-- A 128-bit identifier. -/
structure Id where
  bits : Nat
  fits : bits < Nat.pow 2 128 := by decide
  deriving DecidableEq

namespace Id

/-- The identifier without any bit set. -/
def nil : Id where
  bits := 0

instance : Inhabited Id := ⟨nil⟩

/-- The lengths of the hyphenated groups of digits. -/
def groups : List Nat := [8, 4, 4, 4, 12]

/-- Puts a hyphen between the groups of a list of digits. -/
def hyphenate : List Nat → List Char → List Char
  | [], cs => cs
  | [_], cs => cs
  | n :: ns, cs => cs.take n ++ '-' :: hyphenate ns (cs.drop n)

/-- Takes the hyphens out again; fails where one is missing. -/
def unhyphenate? : List Nat → List Char → Option (List Char)
  | [], cs => some cs
  | [_], cs => some cs
  | n :: ns, cs =>
    match cs.drop n with
    | '-' :: rest => (unhyphenate? ns rest).map (cs.take n ++ ·)
    | _ => none

theorem unhyphenate?_hyphenate (ns : List Nat) {cs : List Char}
    (long : ns.foldr (· + ·) 0 ≤ cs.length) :
    unhyphenate? ns (hyphenate ns cs) = some cs := by
  induction ns generalizing cs with
  | nil => rfl
  | cons n ns ih =>
    cases ns with
    | nil => rfl
    | cons m ns =>
      simp only [List.foldr_cons] at long ih
      have taken : (cs.take n).length = n := by
        rw [List.length_take]
        omega
      have rest : m + ns.foldr (· + ·) 0 ≤ (cs.drop n).length := by
        rw [List.length_drop]
        omega
      have split : (cs.take n ++ '-' :: hyphenate (m :: ns) (cs.drop n)).drop n
          = '-' :: hyphenate (m :: ns) (cs.drop n) := by
        rw [List.drop_append_of_le_length (by omega), List.drop_of_length_le (by omega)]
        rfl
      have front : (cs.take n ++ '-' :: hyphenate (m :: ns) (cs.drop n)).take n = cs.take n := by
        rw [List.take_append_of_le_length (by omega), List.take_of_length_le (by omega)]
      simp only [hyphenate, unhyphenate?, split, front, ih rest, Option.map_some,
        List.take_append_drop]

/-- The canonical text: lower-case digits in hyphenated groups. -/
def text (id : Id) : String :=
  String.ofList (hyphenate groups (Text.Hex.write 32 id.bits))

/-- The identifier that 32 hexadecimal digits spell. -/
def ofDigits? (cs : List Char) : Option Id :=
  if cs.length = 32 then
    (Text.Hex.read? cs).bind fun n => if h : n < Nat.pow 2 128 then some ⟨n, h⟩ else none
  else
    none

/-- The identifier that hyphenated groups of digits spell. -/
def ofGroups? (cs : List Char) : Option Id :=
  (unhyphenate? groups cs).bind ofDigits?

/-- The text that may stand in front of hyphenated groups. -/
def urn : List Char := "urn:uuid:".toList

/-- Reads plain digits, or hyphenated groups standing alone, in braces or after `urn:uuid:`. -/
def ofChars? (cs : List Char) : Option Id :=
  match cs.length with
  | 32 => ofDigits? cs
  | 36 => ofGroups? cs
  | 38 =>
    if cs.head? = some '\x7b' ∧ cs.getLast? = some '\x7d' then ofGroups? cs.tail.dropLast else none
  | 45 => if cs.take 9 = urn then ofGroups? (cs.drop 9) else none
  | _ => none

/-- The identifier that a text spells, in letters of either case. -/
def ofText? (s : String) : Option Id :=
  ofChars? s.toList

theorem ofDigits?_write (id : Id) : ofDigits? (Text.Hex.write 32 id.bits) = some id := by
  have fits : id.bits < Nat.pow 16 32 := id.fits
  simp only [ofDigits?, Text.Hex.length_write, if_pos, Text.Hex.read?_write fits, Option.bind_some]
  exact dif_pos id.fits

theorem length_hyphenate (ns : List Nat) (cs : List Char) (long : ns.foldr (· + ·) 0 ≤ cs.length) :
    (hyphenate ns cs).length = cs.length + (ns.length - 1) := by
  induction ns generalizing cs with
  | nil => rfl
  | cons n ns ih =>
    cases ns with
    | nil => rfl
    | cons m ns =>
      simp only [List.foldr_cons] at long ih
      simp only [hyphenate, List.length_append, List.length_cons, List.length_take]
      rw [ih (cs.drop n) (by rw [List.length_drop]; omega), List.length_drop]
      simp only [List.length_cons]
      omega

/-- Reading the canonical text gives the identifier. -/
@[simp] theorem ofText?_text (id : Id) : ofText? id.text = some id := by
  have length : (hyphenate groups (Text.Hex.write 32 id.bits)).length = 36 := by
    rw [length_hyphenate _ _ (by simp [groups])]
    simp [groups]
  have groups_eq : unhyphenate? groups (hyphenate groups (Text.Hex.write 32 id.bits))
      = some (Text.Hex.write 32 id.bits) :=
    unhyphenate?_hyphenate groups (by simp [groups])
  simp [ofText?, text, ofChars?, length, ofGroups?, groups_eq, ofDigits?_write]

/-- The identifier of version 4 that carries the low 122 bits of a random number. -/
def ofRandom (n : Nat) : Id where
  bits := (n / Nat.pow 2 74 % Nat.pow 2 48) * Nat.pow 2 80 + 4 * Nat.pow 2 76 +
    (n / Nat.pow 2 62 % Nat.pow 2 12) * Nat.pow 2 64 + 2 * Nat.pow 2 62 + n % Nat.pow 2 62
  fits := by
    simp only [Nat.pow_eq]
    omega

theorem text_injective {a b : Id} (same : a.text = b.text) : a = b := by
  have := congrArg ofText? same
  simpa using this

end Id

end Outline

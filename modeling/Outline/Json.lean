/-!
# JSON values

Values as a JSON text spells them.  Objects keep their entries in order, repeated keys included, and
numbers other than machine integers are kept as written.
-/

namespace Outline

/-- A JSON value. -/
inductive Json where
  | null
  | bool (value : Bool)
  /-- A number written without fraction or exponent that fits a signed or unsigned 64-bit
  integer. -/
  | int (value : Int)
  /-- Any other number, as written. -/
  | real (literal : String)
  | str (value : String)
  /-- A string literal whose escapes do not spell any text, as half of a surrogate pair stands
  alone, or an object with such a key. -/
  | garbled
  | arr (elements : List Json)
  | obj (entries : List (String × Json))
  deriving Inhabited

namespace Json

/-- A natural number as a value. -/
def ofNat (n : Nat) : Json :=
  .int n

/-- An optional value, `null` if there is none. -/
def ofOption {α : Type} (write : α → Json) : Option α → Json
  | some x => write x
  | none => .null

/-- A list of values, each written by `write`. -/
def ofList {α : Type} (write : α → Json) (xs : List α) : Json :=
  .arr (xs.map write)

/-- Reads a natural number below the limit. -/
def natBelow? (limit : Nat) : Json → Option Nat
  | .int n => if 0 ≤ n ∧ n < limit then some n.toNat else none
  | _ => none

/-- Reads a text. -/
def text? : Json → Option String
  | .str s => some s
  | _ => none

/-- Reads a truth value. -/
def bool? : Json → Option Bool
  | .bool b => some b
  | _ => none

/-- Reads a list whose elements are all read by `read`. -/
def list? {α : Type} (read : Json → Option α) : Json → Option (List α)
  | .arr elements => elements.mapM read
  | _ => none

/-- Reads a value that may be `null`. -/
def nullable? {α : Type} (read : Json → Option α) : Json → Option (Option α)
  | .null => some none
  | value => (read value).map some

theorem natBelow?_ofNat {limit n : Nat} (below : n < limit) :
    natBelow? limit (ofNat n) = some n := by
  have : (n : Int) < limit := by omega
  simp [natBelow?, ofNat, this]

theorem list?_ofList {α : Type} {read : Json → Option α} {write : α → Json} {xs : List α}
    (reads : ∀ x ∈ xs, read (write x) = some x) : list? read (ofList write xs) = some xs := by
  simp only [list?, ofList]
  induction xs with
  | nil => rfl
  | cons x xs ih =>
    simp only [List.map_cons, List.mapM_cons, reads x (.head _),
      ih fun y hy => reads y (.tail _ hy)]
    rfl

end Json

end Outline

/-!
# Hexadecimal digits

Numbers written in lower-case hexadecimal at a fixed width, and read back in either case.
`read?_write` says that reading returns the number written.
-/

namespace Outline.Text.Hex

/-- The lower-case hexadecimal digit of a number below 16. -/
def digit (n : Nat) : Char :=
  if n < 10 then Char.ofNat ('0'.toNat + n) else Char.ofNat ('a'.toNat + (n - 10))

/-- The value of a hexadecimal digit of either case. -/
def value? (c : Char) : Option Nat :=
  if '0' ≤ c ∧ c ≤ '9' then some (c.toNat - '0'.toNat)
  else if 'a' ≤ c ∧ c ≤ 'f' then some (c.toNat - 'a'.toNat + 10)
  else if 'A' ≤ c ∧ c ≤ 'F' then some (c.toNat - 'A'.toNat + 10)
  else none

/-- The last `width` digits of a number, leading zeros included. -/
def write : Nat → Nat → List Char
  | 0, _ => []
  | width + 1, n => write width (n / 16) ++ [digit (n % 16)]

/-- The number that a list of digits spells after `high`. -/
def readFrom? (high : Nat) : List Char → Option Nat
  | [] => some high
  | c :: cs => (value? c).bind fun d => readFrom? (high * 16 + d) cs

/-- The number that a list of digits spells. -/
def read? (cs : List Char) : Option Nat :=
  readFrom? 0 cs

theorem value?_digit {n : Nat} (small : n < 16) : value? (digit n) = some n := by
  have all : ∀ m ∈ List.range 16, value? (digit m) = some m := by decide
  exact all n (List.mem_range.2 small)

@[simp] theorem length_write (width n : Nat) : (write width n).length = width := by
  induction width generalizing n with
  | zero => rfl
  | succ width ih => simp [write, ih]

theorem readFrom?_append (high : Nat) (cs ds : List Char) :
    readFrom? high (cs ++ ds) = (readFrom? high cs).bind fun n => readFrom? n ds := by
  induction cs generalizing high with
  | nil => rfl
  | cons c cs ih =>
    cases h : value? c with
    | none => simp [readFrom?, h]
    | some d => simp [readFrom?, h, ih]

theorem readFrom?_write (width n high : Nat) (fits : n < Nat.pow 16 width) :
    readFrom? high (write width n) = some (high * Nat.pow 16 width + n) := by
  induction width generalizing n with
  | zero =>
    have : n = 0 := by simpa using fits
    simp [write, readFrom?, this]
  | succ width ih =>
    have wider : Nat.pow 16 (width + 1) = Nat.pow 16 width * 16 := rfl
    have fits' : n / 16 < Nat.pow 16 width := by
      rw [wider] at fits
      omega
    rw [write, readFrom?_append, ih _ fits']
    simp only [Option.bind_some, readFrom?, value?_digit (Nat.mod_lt n (by omega))]
    rw [wider, ← Nat.mul_assoc]
    congr 1
    omega

/-- Reading the digits of a number that fits the width gives the number. -/
theorem read?_write {width n : Nat} (fits : n < Nat.pow 16 width) :
    read? (write width n) = some n := by
  simp [read?, readFrom?_write width n 0 fits]

end Outline.Text.Hex

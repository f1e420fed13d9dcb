/-!
# Decimal numerals

Natural numbers and integers as ASCII digits: `digits` writes a number without leading zeros and
`value` reads a row of digits, so `value (digits n) = n`. The bounded readers accept a whole text or
nothing.
-/

set_option autoImplicit false

namespace LeaderLease.Decimal

/-- The decimal digits of `n`, without leading zeros. -/
def digits (n : Nat) : List Char := Nat.toDigits 10 n

/-- `digits n` filled with zeros on the left up to `width` characters. -/
def padded (width n : Nat) : List Char :=
  List.replicate (width - (digits n).length) '0' ++ digits n

/-- The number that a row of digits denotes. -/
def value (cs : List Char) : Nat := Nat.ofDigitChars 10 cs 0

theorem value_digits (n : Nat) : value (digits n) = n := Nat.ofDigitChars_ten_toDigits

theorem value_padded (width n : Nat) : value (padded width n) = n := by
  rw [value, padded, Nat.ofDigitChars_append, Nat.ofDigitChars_replicate_zero]
  simpa [value] using value_digits n

/-- A nonempty row of digits below `bound`; leading zeros are allowed. -/
def readBelow (bound : Nat) (cs : List Char) : Option Nat :=
  if cs ≠ [] ∧ cs.all Char.isDigit ∧ value cs < bound then some (value cs) else none

/-- An unsigned number below `bound`; one plus sign may stand before it. -/
def readUnsigned (bound : Nat) : List Char → Option Nat
  | '+' :: cs => readBelow bound cs
  | cs => readBelow bound cs

/-- An integer of `bits` bits in two's complement; one sign may stand before it. -/
def readSigned (bits : Nat) : List Char → Option Int
  | '-' :: cs => (readBelow (Nat.pow 2 (bits - 1) + 1) cs).map fun n => -(n : Int)
  | cs => (readUnsigned (Nat.pow 2 (bits - 1)) cs).map fun n => (n : Int)

/-- The value of a hexadecimal digit. -/
def hexDigit? (c : Char) : Option Nat :=
  if '0' ≤ c ∧ c ≤ '9' then some (c.toNat - '0'.toNat)
  else if 'a' ≤ c ∧ c ≤ 'f' then some (c.toNat - 'a'.toNat + 10)
  else if 'A' ≤ c ∧ c ≤ 'F' then some (c.toNat - 'A'.toNat + 10)
  else none

/-- The number that hexadecimal digits denote, or nothing if another character stands among them. -/
def hexValue? (cs : List Char) : Option Nat :=
  cs.foldlM (fun sum c => (hexDigit? c).map (16 * sum + ·)) 0

end LeaderLease.Decimal

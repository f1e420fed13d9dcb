import LeaderLease.Number.Numeral

/-!
# Numerals read back

A numeral that a reader can accept (`Numeral.WellFormed`) is read back from its text, whatever
follows it, as long as that cannot be taken for more of it (`Numeral.Ends`). Natural numbers are
written as such numerals.
-/

set_option autoImplicit false

namespace LeaderLease

namespace Decimal

theorem isDigit_of_mem_digits {n : Nat} {c : Char} (member : c ∈ digits n) : c.isDigit = true :=
  Nat.isDigit_of_mem_toDigits (by decide) (by decide) member

theorem digits_ne_nil (n : Nat) : digits n ≠ [] := Nat.toDigits_ne_nil

/-- A leading zero stands alone. -/
theorem digits_leading (n : Nat) : digits n = ['0'] ∨ (digits n).head? ≠ some '0' := by
  induction n using Nat.strongRecOn with
  | ind n ih =>
    by_cases small : n < 10
    · rw [digits, Nat.toDigits_of_lt_base small]
      by_cases zero : n = 0
      · exact .inl (by rw [zero]; rfl)
      · exact .inr (by simpa using zero)
    · right
      have split : digits n = digits (n / 10) ++ [(n % 10).digitChar] :=
        Nat.toDigits_of_base_le (by decide) (by omega)
      have first : (digits n).head? = (digits (n / 10)).head? := by
        rw [split, List.head?_append, List.head?_eq_some_head (digits_ne_nil _), Option.some_or]
      rw [first]
      rcases ih (n / 10) (by omega) with zero | other
      · have nothing := value_digits (n / 10)
        rw [zero] at nothing
        have none : value ['0'] = 0 := rfl
        omega
      · exact other

end Decimal

/-- The text does not start with a digit. -/
def NoDigit (rest : List Char) : Prop := ∀ c, rest.head? = some c → c.isDigit = false

theorem noDigit_cons {c : Char} {rest : List Char} (other : c.isDigit = false) :
    NoDigit (c :: rest) := by
  intro c' first
  cases first
  exact other

theorem NoDigit.takeWhile {rest : List Char} (ends : NoDigit rest) :
    rest.takeWhile Char.isDigit = [] := by
  cases rest with
  | nil => rfl
  | cons c cs => exact List.takeWhile_cons_of_neg (by simp [ends c rfl])

theorem NoDigit.dropWhile {rest : List Char} (ends : NoDigit rest) :
    rest.dropWhile Char.isDigit = rest := by
  cases rest with
  | nil => rfl
  | cons c cs => exact List.dropWhile_cons_of_neg (by simp [ends c rfl])

theorem takeWhile_digits {ds rest : List Char} (digits : ∀ c ∈ ds, c.isDigit = true)
    (ends : NoDigit rest) : (ds ++ rest).takeWhile Char.isDigit = ds := by
  rw [List.takeWhile_append_of_pos digits, ends.takeWhile, List.append_nil]

namespace Numeral

theorem span_digits {ds rest : List Char} (digits : ∀ c ∈ ds, c.isDigit = true)
    (ends : NoDigit rest) : span (ds ++ rest) = (ds, rest) := by
  rw [span, takeWhile_digits digits ends, List.dropWhile_append_of_pos digits, ends.dropWhile]

/-- An exponent as it is written: a sign or none, and digits. -/
def IsExponent (cs : List Char) : Prop :=
  ∃ sign ds, cs = sign ++ ds ∧ (sign = [] ∨ sign = ['+'] ∨ sign = ['-']) ∧ ds ≠ [] ∧
    ∀ c ∈ ds, c.isDigit = true

/-- What a reader accepts. -/
structure WellFormed (n : Numeral) : Prop where
  whole : ∀ c ∈ n.whole, c.isDigit = true
  inhabited : n.whole ≠ []
  leading : n.whole = ['0'] ∨ n.whole.head? ≠ some '0'
  fraction : ∀ c ∈ n.fraction, c.isDigit = true
  exponent : n.exponent = [] ∨ IsExponent n.exponent

/-- The text does not go on with a numeral that stands before it. -/
structure Ends (rest : List Char) : Prop where
  noDigit : NoDigit rest
  noPoint : rest.head? ≠ some '.'
  noMark : rest.head? ≠ some 'e' ∧ rest.head? ≠ some 'E'

theorem ends_nil : Ends [] := ⟨nofun, nofun, nofun, nofun⟩

theorem ends_cons {c : Char} {rest : List Char} (other : c.isDigit = false) (point : c ≠ '.')
    (mark : c ≠ 'e' ∧ c ≠ 'E') : Ends (c :: rest) :=
  ⟨noDigit_cons other, by simpa using point, by simpa using mark⟩

/-- Digits that are written behind a mark, if there are any. -/
def behind (mark : Char) (ds : List Char) : List Char := if ds = [] then [] else mark :: ds

theorem behind_nil (mark : Char) : behind mark [] = [] := rfl

theorem behind_of_ne_nil {mark : Char} {ds : List Char} (inhabited : ds ≠ []) :
    behind mark ds = mark :: ds := if_neg inhabited

theorem noDigit_behind {mark : Char} (ds : List Char) {rest : List Char}
    (other : mark.isDigit = false) (ends : NoDigit rest) : NoDigit (behind mark ds ++ rest) := by
  cases ds with
  | nil => exact ends
  | cons d ds => exact noDigit_cons other

theorem noPoint_behind {mark : Char} (ds : List Char) {rest : List Char} (other : mark ≠ '.')
    (noPoint : rest.head? ≠ some '.') : (behind mark ds ++ rest).head? ≠ some '.' := by
  cases ds with
  | nil => exact noPoint
  | cons d ds => simpa [behind] using other

theorem text_eq (n : Numeral) : n.text = (if n.negative then ['-'] else []) ++
    (n.whole ++ (behind '.' n.fraction ++ behind 'e' n.exponent)) := by
  simp only [text, behind, List.append_assoc]

theorem readWhole_append {whole rest : List Char} (digits : ∀ c ∈ whole, c.isDigit = true)
    (inhabited : whole ≠ []) (leading : whole = ['0'] ∨ whole.head? ≠ some '0')
    (ends : NoDigit rest) :
    readWhole (whole ++ rest) = some (whole, rest) := by
  rcases leading with rfl | other
  · rfl
  · cases whole with
    | nil => exact absurd rfl inhabited
    | cons c cs =>
        have first : c ≠ '0' := by simpa using other
        have spanned := span_digits digits ends
        rw [List.cons_append] at spanned ⊢
        unfold readWhole
        split
        · rename_i same
          cases same
          exact absurd rfl first
        · rw [spanned, if_neg inhabited]

theorem readFraction_append {fraction rest : List Char}
    (digits : ∀ c ∈ fraction, c.isDigit = true) (ends : NoDigit rest)
    (noPoint : rest.head? ≠ some '.') :
    readFraction (behind '.' fraction ++ rest) = some (fraction, rest) := by
  by_cases none : fraction = []
  · subst none
    rw [behind_nil, List.nil_append]
    unfold readFraction
    split
    · exact absurd rfl noPoint
    · rfl
  · rw [behind_of_ne_nil none, List.cons_append, readFraction, span_digits digits ends, if_neg none]

theorem readSign_digits {ds rest : List Char} (digits : ∀ c ∈ ds, c.isDigit = true)
    (inhabited : ds ≠ []) : readSign (ds ++ rest) = ([], ds ++ rest) := by
  cases ds with
  | nil => exact absurd rfl inhabited
  | cons d ds =>
      have digit := digits d List.mem_cons_self
      unfold readSign
      split
      · rename_i same
        cases same
        cases digit
      · rename_i same
        cases same
        cases digit
      · rfl

theorem readExponent_append {exponent rest : List Char}
    (wellFormed : exponent = [] ∨ IsExponent exponent) (ends : Ends rest) :
    readExponent (behind 'e' exponent ++ rest) = some (exponent, rest) := by
  rcases wellFormed with rfl | ⟨sign, ds, rfl, signed, inhabited, digits⟩
  · rw [behind_nil, List.nil_append]
    cases rest with
    | nil => rfl
    | cons c cs =>
        have mark := ends.noMark
        simp only [List.head?_cons, ne_eq, Option.some.injEq] at mark
        rw [readExponent, if_neg (not_or.mpr mark)]
  · have written : sign ++ ds ≠ [] := List.append_ne_nil_of_right_ne_nil _ inhabited
    have signRead : readSign (sign ++ ds ++ rest) = (sign, ds ++ rest) := by
      rcases signed with rfl | rfl | rfl
      · exact readSign_digits digits inhabited
      · rfl
      · rfl
    rw [behind_of_ne_nil written, List.cons_append, readExponent, if_pos (.inl rfl), signRead]
    simp only [span_digits digits ends.noDigit, if_neg inhabited]

theorem readUnsigned_text {n : Numeral} (wellFormed : n.WellFormed) {rest : List Char}
    (ends : Ends rest) :
    readUnsigned n.negative
      (n.whole ++ (behind '.' n.fraction ++ (behind 'e' n.exponent ++ rest))) = some (n, rest) := by
  have noDigit : NoDigit (behind 'e' n.exponent ++ rest) := noDigit_behind _ rfl ends.noDigit
  have noPoint := noPoint_behind n.exponent (by decide : 'e' ≠ '.') ends.noPoint
  rw [readUnsigned, readWhole_append wellFormed.whole wellFormed.inhabited wellFormed.leading
    (noDigit_behind n.fraction rfl noDigit)]
  simp only [Option.bind_eq_bind, Option.bind_some,
    readFraction_append wellFormed.fraction noDigit noPoint,
    readExponent_append wellFormed.exponent ends]

/-- A numeral is read back from its text. -/
theorem read_text {n : Numeral} (wellFormed : n.WellFormed) {rest : List Char} (ends : Ends rest) :
    read (n.text ++ rest) = some (n, rest) := by
  have unsigned := readUnsigned_text wellFormed ends
  simp only [text_eq, List.append_assoc]
  by_cases negative : n.negative = true
  · rw [if_pos negative]
    rw [negative] at unsigned
    exact unsigned
  · rw [if_neg negative, List.nil_append]
    rw [Bool.not_eq_true] at negative
    rw [negative] at unsigned
    cases digits : n.whole with
    | nil => exact absurd digits wellFormed.inhabited
    | cons d ds =>
        have digit := wellFormed.whole d (digits ▸ List.mem_cons_self)
        rw [digits] at unsigned
        unfold read
        split
        · rename_i same
          cases same
          cases digit
        · exact unsigned

theorem wellFormed_ofNat (n : Nat) : (ofNat n).WellFormed where
  whole := fun _ => Decimal.isDigit_of_mem_digits
  inhabited := Decimal.digits_ne_nil n
  leading := Decimal.digits_leading n
  fraction := nofun
  exponent := .inl rfl

theorem toNatBelow?_ofNat {n bound : Nat} (inRange : n < bound) :
    (ofNat n).toNatBelow? bound = some n := by
  have value : Decimal.value (ofNat n).whole = n := Decimal.value_digits n
  rw [toNatBelow?, value, if_pos ⟨rfl, rfl, inRange⟩]

end Numeral

end LeaderLease

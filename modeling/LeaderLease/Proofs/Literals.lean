import LeaderLease.Proofs.Numerals
import LeaderLease.Toml.Reader

/-!
# TOML texts read back

Every text can be written as a literal on one line (`literal`): the characters that stand for
themselves as they are, and all others by their codes. The literal is read back as the text
(`readText_literal`), and so are truth values and natural numbers (`Denotes`). A document of one line
that gives such a value to a key is read as the table that the key leads into (`read_line`).
-/

set_option autoImplicit false

namespace LeaderLease

/-! ## Codes of characters -/

namespace Decimal

/-- The last hexadecimal digits of a number. -/
def hexDigits : Nat → Nat → List Char
  | 0, _ => []
  | width + 1, n => hexDigits width (n / 16) ++ [Nat.digitChar (n % 16)]

theorem hexDigit?_digitChar : ∀ d < 16, hexDigit? (Nat.digitChar d) = some d := by
  decide

theorem hexValue?_hexDigits (width n : Nat) :
    hexValue? (hexDigits width n) = some (n % Nat.pow 16 width) := by
  induction width generalizing n with
  | zero => simp [hexDigits, hexValue?, Nat.mod_one]
  | succ width ih =>
      have digit := hexDigit?_digitChar (n % 16) (Nat.mod_lt n (by decide))
      have higher : List.foldlM (fun sum c => (hexDigit? c).map (16 * sum + ·)) 0
          (hexDigits width (n / 16)) = some (n / 16 % Nat.pow 16 width) := ih (n / 16)
      have wider : Nat.pow 16 (width + 1) = 16 * Nat.pow 16 width := Nat.pow_succ'
      rw [hexDigits, hexValue?, List.foldlM_append, higher, wider, Nat.mod_mul]
      simp [digit, Nat.add_comm]

end Decimal

namespace Toml

/-! ## Literals -/

/-- A character between quotes. -/
def literalChar (c : Char) : List Char :=
  if isPlain c ∧ c ≠ '"' ∧ c ≠ '\\' then [c] else '\\' :: 'U' :: Decimal.hexDigits 8 c.toNat

/-- A text between quotes. -/
def literal (s : String) : List Char := '"' :: s.toList.flatMap literalChar ++ ['"']

theorem codeChar?_hexDigits (c : Char) : codeChar? (Decimal.hexDigits 8 c.toNat) = some c := by
  have valid : c.toNat.isValidChar := c.valid
  have small : c.toNat < Nat.pow 16 8 := by
    have bound : Nat.pow 16 8 = 4294967296 := rfl
    rw [Nat.isValidChar] at valid
    omega
  rw [codeChar?, Decimal.hexValue?_hexDigits, Nat.mod_eq_of_lt small]
  dsimp only
  rw [dif_pos valid]
  rfl

/-- A character that stands for itself. -/
theorem readBasic_plain (done : List Char) {c : Char} (rest : List Char) (plain : isPlain c = true)
    (quote : c ≠ '"') (backslash : c ≠ '\\') :
    readBasic done (c :: rest) = readBasic (c :: done) rest := by
  rw [readBasic.eq_def]
  split
  · rename_i same
    cases same
  · rename_i same
    cases same
    exact absurd rfl quote
  · rename_i same
    cases same
    exact absurd rfl backslash
  · rename_i same
    cases same
    exact absurd rfl backslash
  · rename_i same
    cases same
    exact absurd rfl backslash
  · rename_i same
    cases same
    exact if_pos ⟨plain, backslash⟩

theorem readBasic_literalChar (done : List Char) (c : Char) (rest : List Char) :
    readBasic done (literalChar c ++ rest) = readBasic (c :: done) rest := by
  unfold literalChar
  split
  · rename_i plain
    exact readBasic_plain done rest plain.1 plain.2.1 plain.2.2
  -- The reader's branch for eight digits shows once they are written out.
  · have code := codeChar?_hexDigits c
    simp only [Decimal.hexDigits, List.nil_append, List.cons_append] at code ⊢
    rw [readBasic, code]

theorem readBasic_literal (done cs rest : List Char) :
    readBasic done (cs.flatMap literalChar ++ '"' :: rest) =
      some (String.ofList (done.reverse ++ cs), rest) := by
  induction cs generalizing done with
  | nil => simp [readBasic]
  | cons c cs ih =>
      rw [List.flatMap_cons, List.append_assoc, readBasic_literalChar, ih]
      simp

/-- No character is written with a quote in front. -/
theorem literalChar_append_ne (c : Char) (rest cs : List Char) :
    literalChar c ++ rest ≠ '"' :: cs := by
  unfold literalChar
  split
  · rename_i plain
    intro same
    exact plain.2.1 (List.cons.inj same).1
  · intro same
    exact absurd (List.cons.inj same).1 (by decide)

/-- One quote, and not three, opens a literal on one line. -/
theorem readText_quote {cs : List Char} (single : ∀ rest, cs ≠ '"' :: '"' :: rest) :
    readText ('"' :: cs) = readBasic [] cs := by
  rw [readText.eq_def]
  split
  · rename_i same
    cases same
    exact absurd rfl (single _)
  · rename_i same
    cases same
    rfl
  · rename_i same
    cases same
  · rename_i same
    cases same
  · rename_i other _ _
    exact absurd rfl (other cs)

theorem readText_literal (s : String) : readText (literal s) = some (s, []) := by
  -- Three quotes would open a literal over several lines.
  have single : ∀ rest, s.toList.flatMap literalChar ++ ['"'] ≠ '"' :: '"' :: rest := by
    intro rest
    cases s.toList with
    | nil => exact nofun
    | cons c cs =>
        rw [List.flatMap_cons, List.append_assoc]
        exact literalChar_append_ne c _ _
  rw [literal, List.cons_append, readText_quote single, readBasic_literal]
  simp

/-! ## Values on one line -/

/-- Nothing is skipped where a character stands that is not blank, as a property shows that blanks
do not have. -/
theorem skipSpace_cons {p : Char → Bool} {c : Char} (holds : p c = true) (space : p ' ' = false)
    (tab : p '\t' = false) (cs : List Char) : skipSpace (c :: cs) = c :: cs := by
  refine List.dropWhile_cons_of_neg fun blank => ?_
  simp only [isSpace, Bool.or_eq_true, decide_eq_true_eq] at blank
  rcases blank with rfl | rfl
  · cases holds.symm.trans space
  · cases holds.symm.trans tab

/-- The characters are read as a value, however deep it stands. -/
structure Denotes (cs : List Char) (v : Toml) : Prop where
  start : skipSpace cs = cs
  read : ∀ fuel depth, readValue (fuel + 1) depth cs = some (v, [])

theorem denotes_literal (s : String) : Denotes (literal s) (.text s) where
  start := rfl
  read fuel depth := by
    have back := readText_literal s
    unfold literal at back ⊢
    rw [List.cons_append] at back ⊢
    rw [readValue, back]
    rfl

/-- A truth value as it is written. -/
def flag (b : Bool) : List Char := if b then "true".toList else "false".toList

theorem denotes_flag (b : Bool) : Denotes (flag b) (.bool b) := by
  cases b with
  | true => exact ⟨rfl, fun _ _ => rfl⟩
  | false => exact ⟨rfl, fun _ _ => rfl⟩

/-! ### Digits -/

section Digits

variable {ds : List Char}

theorem moreDigits_digits (digits : ∀ c ∈ ds, c.isDigit = true) :
    moreDigits Char.isDigit ds = (ds, []) := by
  induction ds with
  | nil => rfl
  | cons c cs ih =>
      have first : c.isDigit = true := digits c (List.mem_cons_self ..)
      have rest := ih fun d member => digits d (List.mem_cons_of_mem _ member)
      have other : c ≠ '_' := by
        rintro rfl
        exact absurd first (by decide)
      rw [moreDigits.eq_def]
      split
      · rename_i same
        exact absurd (List.cons.inj same).1 other
      · rename_i same
        cases same
        simp only [first, if_true, rest]
      · rename_i same
        cases same

theorem expect_digits {mark : Char} (other : mark.isDigit = false)
    (digits : ∀ c ∈ ds, c.isDigit = true) : expect mark ds = none := by
  cases ds with
  | nil => rfl
  | cons c cs =>
      refine if_neg fun same => ?_
      rw [← same, digits c (List.mem_cons_self ..)] at other
      cases other

/-- Two numbers of a moment have a mark between them. -/
theorem expect_fixedDigits {mark : Char} (other : mark.isDigit = false)
    (digits : ∀ c ∈ ds, c.isDigit = true) {count low high n : Nat} {rest : List Char}
    (read : fixedDigits count low high ds = some (n, rest)) : expect mark rest = none := by
  have chosen := (Option.ite_none_right_eq_some.mp read).2
  have dropped : ds.drop count = rest := congrArg Prod.snd (Option.some.inj chosen)
  rw [← dropped]
  exact expect_digits other fun c member => digits c (List.mem_of_mem_drop member)

theorem skipMoment_digits (digits : ∀ c ∈ ds, c.isDigit = true) : skipMoment ds = none := by
  have date : skipDate ds = none := by
    unfold skipDate
    cases read : fixedDigits 4 0 9999 ds with
    | none => rfl
    | some year =>
        have stops : expect '-' year.2 = none := expect_fixedDigits rfl digits read
        simp [stops]
  have time : skipTime ds = none := by
    unfold skipTime
    cases read : fixedDigits 2 0 23 ds with
    | none => rfl
    | some hour =>
        have stops : expect ':' hour.2 = none := expect_fixedDigits rfl digits read
        simp [stops]
  rw [skipMoment, date]
  exact time

theorem readWhole_digits (digits : ∀ c ∈ ds, c.isDigit = true) (inhabited : ds ≠ [])
    (leading : ds = ['0'] ∨ ds.head? ≠ some '0') : readWhole ds = some (ds, []) := by
  rcases leading with rfl | other
  · rfl
  · cases ds with
    | nil => exact absurd rfl inhabited
    | cons c cs =>
        have first : c.isDigit = true := digits c (List.mem_cons_self ..)
        have rest := moreDigits_digits fun d member => digits d (List.mem_cons_of_mem _ member)
        unfold readWhole
        split
        · rename_i same
          cases same
          exact absurd rfl other
        · simp only [someDigits, first, if_true, rest]

theorem readNumber_digits (digits : ∀ c ∈ ds, c.isDigit = true) (inhabited : ds ≠ []) :
    readNumber ds = readDecimal false ds := by
  have unsigned : Numeral.readSign ds = ([], ds) := by
    have read : Numeral.readSign (ds ++ []) = ([], ds ++ []) :=
      Numeral.readSign_digits digits inhabited
    rwa [List.append_nil] at read
  -- A letter would open another base or a word, and none of the characters is one.
  have letters {c : Char} (member : c ∈ ds) (other : c.isDigit = false) : False := by
    rw [digits c member] at other
    cases other
  unfold readNumber
  split
  · exact (letters (by simp) (c := 'x') rfl).elim
  · exact (letters (by simp) (c := 'o') rfl).elim
  · exact (letters (by simp) (c := 'b') rfl).elim
  · rw [unsigned]
    split
    · rename_i same
      cases same
      exact (letters (by simp) (c := 'i') rfl).elim
    · rename_i same
      cases same
      exact (letters (by simp) (c := 'n') rfl).elim
    · rename_i same
      cases same
      rfl

end Digits

theorem readScalar_digits {n : Nat} (small : n < Nat.pow 2 63) :
    readScalar (Decimal.digits n) = some (.int n, []) := by
  have digits : ∀ c ∈ Decimal.digits n, c.isDigit = true := fun c => Decimal.isDigit_of_mem_digits
  have whole := readWhole_digits digits (Decimal.digits_ne_nil n) (Decimal.digits_leading n)
  have number : readNumber (Decimal.digits n) = some (.int n, []) := by
    rw [readNumber_digits digits (Decimal.digits_ne_nil n)]
    simp [readDecimal, whole, readFraction, readExponent, Numeral.isInteger, Decimal.value_digits,
      small]
  unfold readScalar
  split
  · rename_i same
    have letter : 't' ∈ Decimal.digits n := same ▸ List.mem_cons_self ..
    exact absurd (digits _ letter) (by decide)
  · rename_i same
    have letter : 'f' ∈ Decimal.digits n := same ▸ List.mem_cons_self ..
    exact absurd (digits _ letter) (by decide)
  · rw [skipMoment_digits digits, number]

theorem denotes_digits {n : Nat} (small : n < Nat.pow 2 63) :
    Denotes (Decimal.digits n) (.int n) := by
  have scalar := readScalar_digits small
  have inhabited := Decimal.digits_ne_nil n
  have digits : ∀ c ∈ Decimal.digits n, c.isDigit = true := fun c => Decimal.isDigit_of_mem_digits
  generalize Decimal.digits n = ds at scalar inhabited digits
  cases ds with
  | nil => exact absurd rfl inhabited
  | cons c cs =>
      have first : c.isDigit = true := digits c (List.mem_cons_self ..)
      refine ⟨skipSpace_cons first rfl rfl cs, fun fuel depth => ?_⟩
      rw [readValue.eq_def]
      dsimp only
      split
      · rename_i same
        cases same
        exact absurd first (by decide)
      · rename_i same
        cases same
        exact absurd first (by decide)
      · rename_i same
        cases same
        exact absurd first (by decide)
      · rename_i same
        cases same
        exact absurd first (by decide)
      · exact scalar

/-! ## Documents of one field -/

/-- A document that gives a value to a key. -/
def line (key value : List Char) : String := String.ofList (key ++ ' ' :: '=' :: ' ' :: value)

/-- The characters are read as the parts of a key in front of an equals sign. They start with a
character that needs no quotes. -/
structure Names (key : List Char) (path : List String) (last : String) : Prop where
  bare : ∃ c cs, key = c :: cs ∧ isKeyChar c = true
  read : ∀ value, readKey (key ++ ' ' :: '=' :: value) = some (path ++ [last], '=' :: value)

theorem splitKey_concat (path : List String) (last : String) :
    splitKey (path ++ [last]) = some (path, last) := by
  induction path with
  | nil => rfl
  | cons part path ih =>
      cases path with
      | nil => rfl
      | cons next path =>
          rw [List.cons_append] at ih ⊢
          rw [List.cons_append, splitKey.eq_def]
          dsimp only
          rw [ih]
          rfl

section Line

variable {key value : List Char} {path : List String} {last : String} {v : Toml}

theorem readPair_line (names : Names key path last) (denotes : Denotes value v) :
    readPair (key ++ ' ' :: '=' :: ' ' :: value) = some (⟨path, last, v⟩, []) := by
  have skipped : skipSpace (' ' :: value) = value := denotes.start
  simp [readPair, names.read, splitKey_concat, expect, skipped, denotes.read, endLine]

theorem readSections_line (fuel : Nat) (names : Names key path last) (denotes : Denotes value v) :
    readSections (fuel + 2) ⟨none, []⟩ (key ++ ' ' :: '=' :: ' ' :: value) =
      some [⟨none, [⟨path, last, v⟩]⟩] := by
  have pair := readPair_line names denotes
  obtain ⟨c, cs, rfl, bare⟩ := names.bare
  rw [List.cons_append] at pair ⊢
  generalize cs ++ ' ' :: '=' :: ' ' :: value = rest at pair
  rw [readSections.eq_def]
  dsimp only
  rw [skipSpace_cons bare (by decide) (by decide)]
  split
  · rename_i same
    cases same
  · rename_i same
    cases same
    exact absurd bare (by decide)
  · rename_i same
    cases same
    exact absurd bare (by decide)
  · rename_i same
    cases same
    exact absurd bare (by decide)
  · rename_i same
    cases same
    exact absurd bare (by decide)
  · rename_i same
    cases same
    exact absurd bare (by decide)
  · rw [pair]
    rfl

/-- The document is read as the table that the key leads into. -/
theorem read_line (names : Names key path last) (denotes : Denotes value v) :
    read (line key value) =
      (Members.putValue last v path []).map fun members => .table (membersToToml members) := by
  have sections := fun fuel => readSections_line fuel names denotes
  obtain ⟨c, cs, rfl, bare⟩ := names.bare
  have unmarked : dropMark (c :: cs ++ ' ' :: '=' :: ' ' :: value) =
      c :: cs ++ ' ' :: '=' :: ' ' :: value := by
    unfold dropMark
    split
    · rename_i same
      cases (List.cons.inj same).1
      exact absurd bare (by decide)
    · rfl
  have long : (c :: cs ++ ' ' :: '=' :: ' ' :: value).length + 1 =
      cs.length + value.length + 3 + 2 := by
    simp only [List.length_append, List.length_cons]
    omega
  rw [read, line, String.toList_ofList, unmarked, long, sections]
  rw [Option.bind_eq_bind, Option.bind_some, ofSections?]
  simp only [List.foldlM_cons, List.foldlM_nil, Members.putSection, Members.putPairs]
  cases Members.putValue last v path [] <;> rfl

end Line

end Toml

end LeaderLease

import LeaderLease.Json.Reader
import LeaderLease.Proofs.Numerals

/-!
# Documents read back

A document whose numbers are well formed is read back from its text: its texts character by
character, whatever has to be escaped (`readString_stringText`), and its arrays and objects item by
item (`readValue_text`). No blank stands in a written document outside of its texts, so nothing is
skipped.
-/

set_option autoImplicit false

namespace LeaderLease

namespace Json

/-! ## String literals -/

/-- Controls are escaped by two hexadecimal digits of their codes. -/
theorem hexValue?_hexDigits : ∀ code < 0x20,
    Decimal.hexValue? ['0', '0', hexDigit (code / 16), hexDigit (code % 16)] = some code := by
  decide

/-- A character that needs no escape. -/
theorem readCodes_shown (done : List Nat) {c : Char} (rest : List Char) (quote : c ≠ '"')
    (backslash : c ≠ '\\') (shown : ¬ c.toNat < 0x20) :
    readCodes done (c :: rest) = readCodes (c.toNat :: done) rest := by
  rw [readCodes.eq_def]
  split
  · rename_i same
    cases same
  · rename_i same
    cases same
    exact absurd rfl quote
  · rename_i same
    cases same
    exact absurd rfl backslash
  · rename_i same
    cases same
    exact absurd rfl backslash
  · rename_i same
    cases same
    exact if_neg (not_or.mpr ⟨backslash, shown⟩)

theorem readCodes_escapeChar (done : List Nat) (c : Char) (rest : List Char) :
    readCodes done (escapeChar c ++ rest) = readCodes (c.toNat :: done) rest := by
  unfold escapeChar
  -- The escapes of one letter.
  repeat
    split
    · subst_vars
      simp [readCodes, shortEscape?]
  split
  · rename_i control
    simp only [List.cons_append, List.nil_append]
    rw [readCodes, hexValue?_hexDigits c.toNat control]
  · rename_i quote backslash _ _ _ _ _ shown
    exact readCodes_shown done rest quote backslash shown

theorem readCodes_escaped (done : List Nat) (cs rest : List Char) :
    readCodes done (cs.flatMap escapeChar ++ '"' :: rest) =
      some (done.reverse ++ cs.map Char.toNat, rest) := by
  induction cs generalizing done with
  | nil => simp [readCodes]
  | cons c cs ih =>
      rw [List.flatMap_cons, List.append_assoc, readCodes_escapeChar, ih]
      simp

/-- The code of a character is no half of a surrogate pair. -/
theorem notHalf (c : Char) : isHighHalf c.toNat = false ∧ isLowHalf c.toNat = false := by
  have valid := c.valid
  rw [UInt32.isValidChar, Nat.isValidChar] at valid
  simp only [isHighHalf, isLowHalf, Bool.and_eq_false_iff, decide_eq_false_iff_not]
  have code : c.toNat = c.val.toNat := rfl
  omega

theorem joinHalves_cons (done : List Char) (c : Char) (codes : List Nat) :
    joinHalves done (c.toNat :: codes) = joinHalves (c :: done) codes := by
  obtain ⟨notHigh, notLow⟩ := notHalf c
  cases codes with
  | nil => simp [joinHalves, notHigh, notLow, Char.ofNat_toNat]
  | cons next rest => simp [joinHalves, notHigh, notLow, Char.ofNat_toNat]

theorem joinHalves_codes (done cs : List Char) :
    joinHalves done (cs.map Char.toNat) = some (done.reverse ++ cs) := by
  induction cs generalizing done with
  | nil => simp [joinHalves]
  | cons c cs ih =>
      rw [List.map_cons, joinHalves_cons, ih]
      simp

/-- A text, or a literal that names none, is read back from its literal. -/
theorem readString_stringText (s : Option String) (rest : List Char) :
    ∃ body, stringText s ++ rest = '"' :: body ∧ readString body = some (s, rest) := by
  cases s with
  | none => exact ⟨_, rfl, rfl⟩
  | some s =>
      refine ⟨s.toList.flatMap escapeChar ++ '"' :: rest, by simp [stringText], ?_⟩
      simp only [readString, readCodes_escaped, joinHalves_codes, List.reverse_nil, List.nil_append,
        Option.map_some, String.ofList_toList]

/-! ## Values -/

mutual

/-- All numbers of the document are well formed. -/
def WellFormed : Json → Prop
  | .number n => n.WellFormed
  | .array items => ItemsWellFormed items
  | .object members => MembersWellFormed members
  | .null | .bool _ | .string _ => True

def ItemsWellFormed : List Json → Prop
  | [] => True
  | item :: items => WellFormed item ∧ ItemsWellFormed items

def MembersWellFormed : List (Option String × Json) → Prop
  | [] => True
  | (_, value) :: members => WellFormed value ∧ MembersWellFormed members

end

/-- A character that a number may start with. -/
def StartsNumber (c : Char) : Prop := c = '-' ∨ c.isDigit = true

theorem text_number {n : Numeral} (wellFormed : n.WellFormed) :
    ∃ c cs, n.text = c :: cs ∧ StartsNumber c := by
  rw [Numeral.text]
  cases digits : n.whole with
  | nil => exact absurd digits wellFormed.inhabited
  | cons d ds =>
      have digit := wellFormed.whole d (digits ▸ List.mem_cons_self)
      by_cases negative : n.negative = true
      · rw [if_pos negative]
        exact ⟨_, _, rfl, .inl rfl⟩
      · rw [if_neg negative]
        exact ⟨_, _, rfl, .inr digit⟩

/-- A number starts with none of the characters that other values start or end with. -/
theorem StartsNumber.ne {c : Char} (starts : StartsNumber c) {other : Char}
    (differs : other ≠ '-' ∧ other.isDigit = false) : c ≠ other := by
  rintro rfl
  rcases starts with rfl | digit
  · exact differs.1 rfl
  · rw [differs.2] at digit
    cases digit

theorem readValue_number (fuel : Nat) {c : Char} (cs : List Char) (starts : StartsNumber c) :
    readValue (fuel + 1) (c :: cs) =
      (Numeral.read (c :: cs)).map fun (n, rest) => (.number n, rest) := by
  simp only [readValue]
  split <;> rename_i same
  case h_7 => rfl
  -- No other value starts like a number.
  all_goals
    injection same with first
    exact absurd first (starts.ne (by decide))

theorem skipSpace_cons {c : Char} (cs : List Char) (shown : isSpace c = false) :
    skipSpace (c :: cs) = c :: cs :=
  List.dropWhile_cons_of_neg (by simp [shown])

/-- The text of a value starts neither with a blank nor with the end of an array. -/
theorem text_start {j : Json} (wellFormed : j.WellFormed) :
    ∃ c cs, j.text = c :: cs ∧ isSpace c = false ∧ c ≠ ']' := by
  cases j with
  | null => exact ⟨_, _, rfl, rfl, by decide⟩
  | bool b => cases b <;> exact ⟨_, _, rfl, rfl, by decide⟩
  | number n =>
      obtain ⟨c, cs, text, starts⟩ := text_number wellFormed
      refine ⟨c, cs, text, ?_, starts.ne (by decide)⟩
      simp only [isSpace, Bool.or_eq_false_iff, decide_eq_false_iff_not]
      exact ⟨⟨⟨starts.ne (by decide), starts.ne (by decide)⟩, starts.ne (by decide)⟩,
        starts.ne (by decide)⟩
  | string s => cases s <;> exact ⟨_, _, rfl, rfl, by decide⟩
  | array items => cases items <;> exact ⟨_, _, rfl, rfl, by decide⟩
  | object members => cases members <;> exact ⟨_, _, rfl, rfl, by decide⟩

theorem skipSpace_text {j : Json} (wellFormed : j.WellFormed) (rest : List Char) :
    skipSpace (j.text ++ rest) = j.text ++ rest := by
  obtain ⟨c, cs, text, shown, -⟩ := text_start wellFormed
  rw [text, List.cons_append, skipSpace_cons _ shown]

theorem ends_items (items : List Json) (rest : List Char) :
    Numeral.Ends (itemsText items ++ rest) := by
  cases items <;> exact Numeral.ends_cons rfl (by decide) (by decide)

theorem ends_members (members : List (Option String × Json)) (rest : List Char) :
    Numeral.Ends (membersText members ++ rest) := by
  cases members <;> exact Numeral.ends_cons rfl (by decide) (by decide)

/-- Two steps for each character suffice to read the value back. -/
def ReadsBack (j : Json) : Prop :=
  ∀ fuel rest, 2 * j.text.length ≤ fuel → Numeral.Ends rest →
    readValue fuel (j.text ++ rest) = some (j, rest)

/-- A value that does not hold others. -/
theorem readsBack_of_succ {j : Json} (wellFormed : j.WellFormed)
    (back : ∀ fuel rest, 2 * j.text.length ≤ fuel + 1 → Numeral.Ends rest →
      readValue (fuel + 1) (j.text ++ rest) = some (j, rest)) : j.ReadsBack := by
  intro fuel rest enough ends
  cases fuel with
  | zero =>
      obtain ⟨c, cs, text, -⟩ := text_start wellFormed
      rw [text, List.length_cons] at enough
      omega
  | succ fuel => exact back fuel rest enough ends

theorem readsBack_number {n : Numeral} (wellFormed : n.WellFormed) : (Json.number n).ReadsBack := by
  refine readsBack_of_succ wellFormed fun fuel rest _ ends => ?_
  obtain ⟨c, cs, written, starts⟩ := text_number wellFormed
  have back := Numeral.read_text wellFormed ends
  rw [written, List.cons_append] at back
  rw [text, written, List.cons_append, readValue_number fuel _ starts, back]
  rfl

theorem readsBack_string (s : Option String) : (Json.string s).ReadsBack := by
  refine readsBack_of_succ trivial fun fuel rest _ _ => ?_
  obtain ⟨body, literal, back⟩ := readString_stringText s rest
  rw [text, literal, readValue, back]
  rfl

/-- An array is read back if its items are. -/
theorem readsBack_array {item : Json} {items : List Json}
    (wellFormed : (Json.array (item :: items)).WellFormed)
    (back : ∀ fuel rest, 2 * (item.text.length + (itemsText items).length) ≤ fuel →
      readItems fuel [] (item.text ++ (itemsText items ++ rest)) = some (item :: items, rest)) :
    (Json.array (item :: items)).ReadsBack := by
  refine readsBack_of_succ wellFormed fun fuel rest enough _ => ?_
  simp only [text, List.length_cons, List.length_append] at enough
  have items := back fuel rest (by omega)
  obtain ⟨c, cs, start, shown, unclosed⟩ := text_start wellFormed.1
  rw [start, List.cons_append] at items
  simp only [text, start, List.cons_append, List.append_assoc, readValue, skipSpace_cons _ shown]
  split
  · rename_i same
    injection same with closed
    exact absurd closed unclosed
  · rw [items]
    rfl

/-- An object is read back if its members are. -/
theorem readsBack_object {key : Option String} {value : Json}
    {members : List (Option String × Json)}
    (wellFormed : (Json.object ((key, value) :: members)).WellFormed)
    (back : ∀ fuel rest,
      2 * ((stringText key).length + 1 + value.text.length + (membersText members).length) ≤ fuel →
      readMembers fuel []
        (stringText key ++ ':' :: (value.text ++ (membersText members ++ rest))) =
        some ((key, value) :: members, rest)) :
    (Json.object ((key, value) :: members)).ReadsBack := by
  refine readsBack_of_succ wellFormed fun fuel rest enough _ => ?_
  simp only [text, List.length_cons, List.length_append] at enough
  have whole := back fuel rest (by omega)
  obtain ⟨body, literal, -⟩ :=
    readString_stringText key (':' :: (value.text ++ (membersText members ++ rest)))
  rw [literal] at whole
  simp [text, readValue, literal, skipSpace_cons, isSpace, whole]

mutual

theorem readsBack : ∀ j : Json, j.WellFormed → j.ReadsBack
  | .null, _ => readsBack_of_succ trivial fun _ _ _ _ => by simp [text, readValue]
  | .bool true, _ => readsBack_of_succ trivial fun _ _ _ _ => by simp [text, readValue]
  | .bool false, _ => readsBack_of_succ trivial fun _ _ _ _ => by simp [text, readValue]
  | .number _, wellFormed => readsBack_number wellFormed
  | .string s, _ => readsBack_string s
  | .array [], _ =>
      readsBack_of_succ trivial fun _ _ _ _ => by simp [text, readValue, skipSpace, isSpace]
  | .array (item :: items), wellFormed =>
      readsBack_array wellFormed fun fuel rest enough =>
        readItems_text items fuel [] item rest wellFormed.2 (readsBack item wellFormed.1) enough
  | .object [], _ =>
      readsBack_of_succ trivial fun _ _ _ _ => by simp [text, readValue, skipSpace, isSpace]
  | .object ((key, value) :: members), wellFormed =>
      readsBack_object wellFormed fun fuel rest enough =>
        readMembers_text members fuel [] key value rest wellFormed.2 wellFormed.1
          (readsBack value wellFormed.1) enough

/-- The items from one that is read back to the closing bracket. -/
theorem readItems_text : ∀ (items : List Json) (fuel : Nat) (done : List Json) (item : Json)
    (rest : List Char), ItemsWellFormed items → item.ReadsBack →
    2 * (item.text.length + (itemsText items).length) ≤ fuel →
    readItems fuel done (item.text ++ (itemsText items ++ rest)) =
      some (done.reverse ++ item :: items, rest)
  | [], fuel, done, item, rest, _, back, enough => by
      cases fuel with
      | zero => simp [itemsText] at enough
      | succ fuel =>
          simp only [itemsText, List.length_singleton] at enough
          have first := back fuel _ (by omega) (ends_items [] rest)
          rw [readItems, first]
          simp [itemsText, skipSpace, isSpace]
  | next :: items, fuel, done, item, rest, wellFormed, back, enough => by
      cases fuel with
      | zero => simp [itemsText] at enough
      | succ fuel =>
          simp only [itemsText, List.length_cons, List.length_append] at enough
          have first := back fuel _ (by omega) (ends_items (next :: items) rest)
          have others := readItems_text items fuel (item :: done) next rest wellFormed.2
            (readsBack next wellFormed.1) (by omega)
          rw [readItems, first]
          simp [itemsText, skipSpace_cons, isSpace, skipSpace_text wellFormed.1, others]

/-- The members from one whose value is read back to the closing brace. -/
theorem readMembers_text : ∀ (members : List (Option String × Json)) (fuel : Nat)
    (done : List (Option String × Json)) (key : Option String) (value : Json) (rest : List Char),
    MembersWellFormed members → value.WellFormed → value.ReadsBack →
    2 * ((stringText key).length + 1 + value.text.length + (membersText members).length) ≤ fuel →
    readMembers fuel done
      (stringText key ++ ':' :: (value.text ++ (membersText members ++ rest))) =
      some (done.reverse ++ (key, value) :: members, rest)
  | [], fuel, done, key, value, rest, _, shown, back, enough => by
      cases fuel with
      | zero => simp [membersText] at enough
      | succ fuel =>
          simp only [membersText, List.length_singleton] at enough
          have first := back fuel _ (by omega) (ends_members [] rest)
          obtain ⟨body, literal, name⟩ :=
            readString_stringText key (':' :: (value.text ++ (membersText [] ++ rest)))
          rw [literal, readMembers, name]
          simp only [skipSpace_cons _ (rfl : isSpace ':' = false), skipSpace_text shown, first]
          simp [membersText, skipSpace, isSpace]
  | (nextKey, next) :: members, fuel, done, key, value, rest, wellFormed, shown, back, enough => by
      cases fuel with
      | zero => simp [membersText] at enough
      | succ fuel =>
          simp only [membersText, List.length_cons, List.length_append] at enough
          have first := back fuel _ (by omega) (ends_members ((nextKey, next) :: members) rest)
          have others := readMembers_text members fuel ((key, value) :: done) nextKey next rest
            wellFormed.2 wellFormed.1 (readsBack next wellFormed.1) (by omega)
          obtain ⟨body, literal, name⟩ := readString_stringText key
            (':' :: (value.text ++ (membersText ((nextKey, next) :: members) ++ rest)))
          obtain ⟨nextBody, nextLiteral, -⟩ := readString_stringText nextKey
            (':' :: (next.text ++ (membersText members ++ rest)))
          rw [literal, readMembers, name]
          simp only [skipSpace_cons _ (rfl : isSpace ':' = false), skipSpace_text shown, first]
          rw [nextLiteral] at others
          simp [membersText, skipSpace_cons, isSpace, nextLiteral, others]

end

/-- A document is read back from its text. -/
theorem read_text {j : Json} (wellFormed : j.WellFormed) : read j.text = some j := by
  have shown := skipSpace_text wellFormed []
  have back := readsBack j wellFormed (2 * j.text.length + 2) [] (by omega) Numeral.ends_nil
  rw [List.append_nil] at shown back
  rw [read, shown, back]
  rfl

end Json

end LeaderLease

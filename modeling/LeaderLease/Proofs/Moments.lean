import LeaderLease.Proofs.Numerals
import LeaderLease.Time.Timestamp
import Mathlib.Algebra.Group.Nat.Defs
import Mathlib.Data.List.Induction

/-!
# Timestamps read back

A moment that exists is read back from its text (`Timestamp.read_text`), whatever its year, with
every fraction of a second and with leap seconds. Each part of the text is a number of a fixed width
(a signed year apart) in front of a sign that is no digit. The other way round, whatever is read is a
moment that exists (`Timestamp.read_valid`).
-/

set_option autoImplicit false

namespace LeaderLease

namespace Decimal

theorem isDigit_of_mem_padded {width n : Nat} {c : Char} (member : c ∈ padded width n) :
    c.isDigit = true := by
  rcases List.mem_append.mp member with zero | digit
  · rw [List.eq_of_mem_replicate zero]
    rfl
  · exact isDigit_of_mem_digits digit

theorem padded_ne_nil (width n : Nat) : padded width n ≠ [] :=
  List.append_ne_nil_of_right_ne_nil _ (digits_ne_nil n)

theorem length_padded {width n : Nat} (positive : 0 < width) (fits : n < 10 ^ width) :
    (padded width n).length = width := by
  have bound : (digits n).length ≤ width :=
    (Nat.length_toDigits_le_iff (by decide) positive).mpr fits
  rw [padded, List.length_append, List.length_replicate]
  omega

theorem value_concat (ds : List Char) (c : Char) :
    value (ds ++ [c]) = 10 * value ds + (c.toNat - '0'.toNat) := by
  rw [value, Nat.ofDigitChars_append, Nat.ofDigitChars_cons, Nat.ofDigitChars_nil]
  rfl

theorem value_lt {ds : List Char} (digits : ∀ c ∈ ds, c.isDigit = true) :
    value ds < 10 ^ ds.length := by
  induction ds using List.reverseRecOn with
  | nil => decide
  | append_singleton ds c ih =>
      have before := ih fun c member => digits c (List.mem_append_left _ member)
      have digit := digits c (List.mem_append_right _ List.mem_cons_self)
      simp only [Char.isDigit, Bool.and_eq_true, decide_eq_true_eq, ge_iff_le,
        UInt32.le_iff_toNat_le] at digit
      change 48 ≤ c.toNat ∧ c.toNat ≤ 57 at digit
      have zero : '0'.toNat = 48 := rfl
      rw [value_concat, List.length_append, List.length_singleton, Nat.pow_succ, zero]
      omega

end Decimal

theorem Text.isBlank_of_isDigit {c : Char} (digit : c.isDigit = true) : Text.isBlank c = false := by
  simp only [Char.isDigit, Bool.and_eq_true, decide_eq_true_eq, ge_iff_le,
    UInt32.le_iff_toNat_le] at digit
  change 48 ≤ c.toNat ∧ c.toNat ≤ 57 at digit
  simp only [Text.isBlank, Text.blankRanges, List.any_cons, List.any_nil, Bool.or_false,
    Bool.or_eq_false_iff, Bool.and_eq_false_iff, decide_eq_false_iff_not]
  omega

theorem Text.trimStart_cons {c : Char} (cs : List Char) (shown : Text.isBlank c = false) :
    Text.trimStart (c :: cs) = c :: cs :=
  List.dropWhile_cons_of_neg (by simp [shown])

theorem Text.trimStart_digits {ds : List Char} (rest : List Char)
    (digits : ∀ c ∈ ds, c.isDigit = true) (inhabited : ds ≠ []) :
    Text.trimStart (ds ++ rest) = ds ++ rest := by
  cases ds with
  | nil => exact absurd rfl inhabited
  | cons d ds => exact trimStart_cons _ (isBlank_of_isDigit (digits d List.mem_cons_self))

namespace Timestamp

theorem readNumber_digits {most : Nat} {ds rest : List Char} (digits : ∀ c ∈ ds, c.isDigit = true)
    (inhabited : ds ≠ []) (fits : ds.length ≤ most) (ends : NoDigit rest) :
    readNumber most (ds ++ rest) = some (Decimal.value ds, rest) := by
  rw [readNumber, takeWhile_digits digits ends, List.take_of_length_le fits, if_neg inhabited,
    List.drop_left]

theorem readNumber_padded {width n : Nat} {rest : List Char} (positive : 0 < width)
    (fits : n < 10 ^ width) (ends : NoDigit rest) :
    readNumber width (Decimal.padded width n ++ rest) = some (n, rest) := by
  rw [readNumber_digits (fun _ => Decimal.isDigit_of_mem_padded) (Decimal.padded_ne_nil width n)
    (Nat.le_of_eq (Decimal.length_padded positive fits)) ends, Decimal.value_padded]

theorem readPart_padded {separator : Char} {n : Nat} {rest : List Char}
    (shown : Text.isBlank separator = false) (fits : n < 100) (ends : NoDigit rest) :
    readPart separator (separator :: (Decimal.padded 2 n ++ rest)) = some (n, rest) := by
  have trimmed := Text.trimStart_digits rest (fun _ => Decimal.isDigit_of_mem_padded)
    (Decimal.padded_ne_nil 2 n)
  rw [readPart, Text.trimStart_cons _ shown]
  simp only [if_pos, trimmed]
  exact readNumber_padded (by decide) fits ends

/-! ## The date -/

theorem readYear_digits {ds : List Char} (rest : List Char) (digits : ∀ c ∈ ds, c.isDigit = true)
    (inhabited : ds ≠ []) :
    readYear (ds ++ rest) = (readNumber 4 (ds ++ rest)).map fun (n, rest) => ((n : Int), rest) := by
  cases ds with
  | nil => exact absurd rfl inhabited
  | cons d ds =>
      have digit := digits d List.mem_cons_self
      rw [List.cons_append]
      unfold readYear
      split
      · rename_i same
        cases same
        cases digit
      · rename_i same
        cases same
        cases digit
      · rfl

theorem readYear_yearText (year : Int) {rest : List Char} (ends : NoDigit rest) :
    readYear (yearText year ++ rest) = some (year, rest) := by
  have digits : ∀ c ∈ Decimal.padded 4 year.natAbs, c.isDigit = true :=
    fun _ => Decimal.isDigit_of_mem_padded
  have inhabited := Decimal.padded_ne_nil 4 year.natAbs
  unfold yearText
  by_cases plain : 0 ≤ year ∧ year ≤ 9999
  · rw [if_pos plain, readYear_digits rest digits inhabited,
      readNumber_padded (by decide) (by omega) ends]
    simp only [Option.map_some, Option.some.injEq, Prod.mk.injEq, and_true]
    omega
  · -- A signed year may have any number of digits.
    have signed := readNumber_digits digits inhabited
      (by rw [List.length_append]; omega : _ ≤ (Decimal.padded 4 year.natAbs ++ rest).length) ends
    rw [Decimal.value_padded] at signed
    rw [if_neg plain, List.cons_append]
    by_cases negative : year < 0
    · rw [if_pos negative, readYear, signed]
      simp only [Option.map_some, Option.some.injEq, Prod.mk.injEq, and_true]
      omega
    · rw [if_neg negative, readYear, signed]
      simp only [Option.map_some, Option.some.injEq, Prod.mk.injEq, and_true]
      omega

theorem trimStart_yearText (year : Int) (rest : List Char) :
    Text.trimStart (yearText year ++ rest) = yearText year ++ rest := by
  unfold yearText
  split
  · exact Text.trimStart_digits rest (fun _ => Decimal.isDigit_of_mem_padded)
      (Decimal.padded_ne_nil 4 _)
  · split <;> exact Text.trimStart_cons _ (by decide)

theorem readDate_text {d : Date} (valid : d.Valid) {rest : List Char} (ends : NoDigit rest) :
    readDate (yearText d.year ++ '-' :: (Decimal.padded 2 d.month ++
      '-' :: (Decimal.padded 2 d.day ++ rest))) = some (d, rest) := by
  have month : d.month < 100 := by
    have bound := valid.2.2.2.1
    omega
  have day : d.day < 100 := by
    have bound := valid.2.2.2.2.2
    have most : Date.daysInMonth d.year d.month ≤ 31 := by
      unfold Date.daysInMonth
      repeat' split
      all_goals decide
    omega
  have months : readPart '-' ('-' :: (Decimal.padded 2 d.month ++
      '-' :: (Decimal.padded 2 d.day ++ rest))) =
      some (d.month, '-' :: (Decimal.padded 2 d.day ++ rest)) :=
    readPart_padded (by decide) month (noDigit_cons rfl)
  have days : readPart '-' ('-' :: (Decimal.padded 2 d.day ++ rest)) = some (d.day, rest) :=
    readPart_padded (by decide) day ends
  rw [readDate, trimStart_yearText, readYear_yearText d.year (noDigit_cons rfl)]
  simp only [Option.bind_eq_bind, Option.bind_some, months, days]
  exact if_pos valid

/-! ## The time of day -/

theorem readFraction_digits {width n : Nat} {rest : List Char} (positive : 0 < width)
    (most : width ≤ 9) (fits : n < 10 ^ width) (ends : NoDigit rest) :
    readFraction ('.' :: (Decimal.padded width n ++ rest)) =
      some (n * 10 ^ (9 - width), rest) := by
  have digits : ∀ c ∈ Decimal.padded width n, c.isDigit = true :=
    fun _ => Decimal.isDigit_of_mem_padded
  have length := Decimal.length_padded positive fits
  have kept : (Decimal.padded width n).take 9 = Decimal.padded width n :=
    List.take_of_length_le (by omega)
  rw [readFraction, takeWhile_digits digits ends]
  simp only [kept, if_neg (Decimal.padded_ne_nil width n), Decimal.value_padded, List.drop_left]
  rw [length]
  rfl

/-- Nanoseconds are read back from the fewest digits that are exact. -/
theorem readFraction_fractionText {nano : Nat} (inRange : nano < 10 ^ 9) {rest : List Char}
    (ends : NoDigit rest) (noPoint : rest.head? ≠ some '.') :
    readFraction (fractionText nano ++ rest) = some (nano, rest) := by
  simp only [fractionText, Nat.pow_eq]
  split
  · rename_i zero
    rw [zero, List.nil_append]
    unfold readFraction
    split
    · exact absurd rfl noPoint
    · rfl
  split
  · rename_i millis
    rw [List.cons_append, readFraction_digits (by decide) (by decide) (by omega) ends]
    simp only [Option.some.injEq, Prod.mk.injEq, and_true]
    omega
  split
  · rename_i micros
    rw [List.cons_append, readFraction_digits (by decide) (by decide) (by omega) ends]
    simp only [Option.some.injEq, Prod.mk.injEq, and_true]
    omega
  · rw [List.cons_append, readFraction_digits (by decide) (by decide) inRange ends]
    simp only [Option.some.injEq, Prod.mk.injEq, and_true]
    omega

theorem noDigit_fractionText (nano : Nat) {rest : List Char} (ends : NoDigit rest) :
    NoDigit (fractionText nano ++ rest) := by
  unfold fractionText
  split
  · exact ends
  split
  · exact noDigit_cons rfl
  split <;> exact noDigit_cons rfl

theorem readTime_text {minute second nano : Nat} (inDay : minute < 1440) (inMinute : second ≤ 60)
    (inSecond : nano < 10 ^ 9) {rest : List Char} (ends : NoDigit rest)
    (noPoint : rest.head? ≠ some '.') :
    readTime (Decimal.padded 2 (minute / 60) ++ ':' :: (Decimal.padded 2 (minute % 60) ++
      ':' :: (Decimal.padded 2 second ++ (fractionText nano ++ rest)))) =
      some ((minute, second, nano), rest) := by
  have hours : readNumber 2 (Decimal.padded 2 (minute / 60) ++ ':' ::
      (Decimal.padded 2 (minute % 60) ++
        ':' :: (Decimal.padded 2 second ++ (fractionText nano ++ rest)))) = some (minute / 60, _) :=
    readNumber_padded (by decide) (by omega) (noDigit_cons rfl)
  have minutes : readPart ':' (':' :: (Decimal.padded 2 (minute % 60) ++
      ':' :: (Decimal.padded 2 second ++ (fractionText nano ++ rest)))) = some (minute % 60, _) :=
    readPart_padded (by decide) (by omega) (noDigit_cons rfl)
  have seconds : readPart ':' (':' :: (Decimal.padded 2 second ++ (fractionText nano ++ rest))) =
      some (second, _) :=
    readPart_padded (by decide) (by omega) (noDigit_fractionText nano ends)
  rw [readTime, Text.trimStart_digits _ (fun _ => Decimal.isDigit_of_mem_padded)
    (Decimal.padded_ne_nil 2 _)]
  simp only [Option.bind_eq_bind, Option.bind_some, hours, minutes, seconds,
    readFraction_fractionText inSecond ends noPoint]
  rw [if_pos (by omega), Nat.div_add_mod']

/-- A moment is read back from its text. -/
theorem read_text {t : Timestamp} (valid : t.Valid) : read t.text = some t := by
  obtain ⟨date, inDay, inMinute, inSecond⟩ := valid
  have ends : NoDigit ['Z'] := noDigit_cons rfl
  have dates : ∀ time, readDate (yearText t.date.year ++ '-' :: (Decimal.padded 2 t.date.month ++
      '-' :: (Decimal.padded 2 t.date.day ++ 'T' :: time))) = some (t.date, 'T' :: time) :=
    fun _ => readDate_text date (noDigit_cons rfl)
  have times := readTime_text inDay inMinute inSecond ends (by decide)
  have written : t.text = yearText t.date.year ++ '-' :: (Decimal.padded 2 t.date.month ++
      '-' :: (Decimal.padded 2 t.date.day ++ 'T' :: (Decimal.padded 2 (t.minute / 60) ++
      ':' :: (Decimal.padded 2 (t.minute % 60) ++
      ':' :: (Decimal.padded 2 t.second ++ (fractionText t.nano ++ ['Z'])))))) := by
    simp only [text, List.append_assoc, List.cons_append]
  have offset : readOffset (Text.trimStart ['Z']) = some (0, []) := by decide
  have universal : toUniversal t.date t.minute 0 = some (t.date, t.minute) := by
    simp only [toUniversal, Int.sub_zero]
    rw [if_neg (by omega), if_neg (by omega), Int.toNat_natCast]
  rw [read, written, dates]
  simp only [Option.bind_eq_bind, Option.bind_some, true_or, if_true, times, offset, universal]
  rfl

/-! ## What is read exists -/

theorem readFraction_lt {cs rest : List Char} {nano : Nat}
    (read : readFraction cs = some (nano, rest)) : nano < 10 ^ 9 := by
  unfold readFraction at read
  split at read
  · rename_i cs
    simp only [Nat.pow_eq, Option.ite_none_left_eq_some, Option.some.injEq, Prod.mk.injEq] at read
    obtain ⟨-, rfl, -⟩ := read
    have digits : ∀ c ∈ (cs.takeWhile Char.isDigit).take 9, c.isDigit = true := fun c member =>
      List.all_eq_true.mp List.all_takeWhile c (List.mem_of_mem_take member)
    have short : ((cs.takeWhile Char.isDigit).take 9).length ≤ 9 := List.length_take_le 9 _
    generalize (cs.takeWhile Char.isDigit).take 9 = kept at digits short ⊢
    calc Decimal.value kept * 10 ^ (9 - kept.length)
        < 10 ^ kept.length * 10 ^ (9 - kept.length) :=
          Nat.mul_lt_mul_of_pos_right (Decimal.value_lt digits) (Nat.pow_pos (by decide))
      _ = 10 ^ 9 := by rw [← Nat.pow_add]; congr 1; omega
  · cases read
    decide

theorem readTime_bounds {cs rest : List Char} {minute second nano : Nat}
    (read : readTime cs = some ((minute, second, nano), rest)) :
    minute < 1440 ∧ second ≤ 60 ∧ nano < 10 ^ 9 := by
  simp only [readTime, Option.bind_eq_bind, Option.bind_eq_some_iff, Prod.exists,
    Option.ite_none_right_eq_some, Option.some.injEq, Prod.mk.injEq] at read
  obtain ⟨hour, _, -, minutes, _, -, seconds, _, -, nanos, _, fraction, bounds, ⟨rfl, rfl, rfl⟩, -⟩ :=
    read
  have inSecond := readFraction_lt fraction
  omega

theorem readDate_valid {cs rest : List Char} {date : Date}
    (read : readDate cs = some (date, rest)) : date.Valid := by
  simp only [readDate, Option.bind_eq_bind, Option.bind_eq_some_iff, Prod.exists,
    Option.ite_none_right_eq_some, Option.some.injEq, Prod.mk.injEq] at read
  obtain ⟨_, _, -, _, _, -, _, _, -, valid, rfl, -⟩ := read
  exact valid

theorem readShift_lt {cs rest : List Char} {n : Nat} (read : readShift cs = some (n, rest)) :
    n < 1440 := by
  unfold readShift at read
  repeat' split at read
  · rename_i bounds
    simp only [Option.some.injEq, Prod.mk.injEq] at read
    omega
  all_goals cases read

theorem readOffset_bounds {cs rest : List Char} {offset : Int}
    (read : readOffset cs = some (offset, rest)) : -1440 < offset ∧ offset < 1440 := by
  unfold readOffset at read
  split at read
  · obtain ⟨⟨n, _⟩, shift, same⟩ := Option.map_eq_some_iff.mp read
    have bound := readShift_lt shift
    cases same
    omega
  · obtain ⟨⟨n, _⟩, shift, same⟩ := Option.map_eq_some_iff.mp read
    have bound := readShift_lt shift
    cases same
    omega
  · obtain ⟨⟨n, _⟩, shift, same⟩ := Option.map_eq_some_iff.mp read
    have bound := readShift_lt shift
    cases same
    omega
  · repeat' split at read
    all_goals cases read
    all_goals decide
  · cases read

theorem toUniversal_valid {date date' : Date} {minute minute' : Nat} {offset : Int}
    (valid : date.Valid) (inDay : minute < 1440) (bounds : -1440 < offset ∧ offset < 1440)
    (moved : toUniversal date minute offset = some (date', minute')) :
    date'.Valid ∧ minute' < 1440 := by
  unfold toUniversal at moved
  simp only at moved
  split at moved
  · obtain ⟨_, before, same⟩ := Option.map_eq_some_iff.mp moved
    cases same
    exact ⟨valid.previous before, by omega⟩
  split at moved
  · obtain ⟨_, after, same⟩ := Option.map_eq_some_iff.mp moved
    cases same
    exact ⟨valid.next after, by omega⟩
  · cases moved
    exact ⟨valid, by omega⟩

/-- Whatever is read is a moment. -/
theorem read_valid {cs : List Char} {t : Timestamp} (found : read cs = some t) : t.Valid := by
  obtain ⟨⟨date, between⟩, dates, found⟩ := Option.bind_eq_some_iff.mp found
  cases between with
  | nil => cases found
  | cons c rest =>
      dsimp only at found
      split at found
      · simp only [Option.bind_eq_bind, Option.bind_some, Option.bind_eq_some_iff, Prod.exists,
          Option.ite_none_right_eq_some, Option.map_eq_some_iff] at found
        obtain ⟨minute, second, nano, _, times, offset, _, offsets, -, date', minute', moved, rfl⟩ :=
          found
        obtain ⟨inDay, inMinute, inSecond⟩ := readTime_bounds times
        obtain ⟨valid, inDay'⟩ := toUniversal_valid (readDate_valid dates) inDay
          (readOffset_bounds offsets) moved
        exact ⟨valid, inDay', inMinute, inSecond⟩
      · cases found

end Timestamp

end LeaderLease
